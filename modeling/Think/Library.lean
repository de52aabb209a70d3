import Think.World.Path

/-! # The standard library

The programs that every installation has, under `src/std`. -/

namespace Think.Library

def mathLines : List String := [
    "PI = 3.141592653589793238",
    "",
    "func degToRad(deg)",
    "    return deg * PI / 180.0;",
    "end",
    "",
    "func radToDeg(rad)",
    "    return rad * 180.0 / PI;",
    "end",
    "",
    "func add(a, b)",
    "    return a + b;",
    "end",
    "",
    "func sub(a, b)",
    "    return a - b;",
    "end",
    "",
    "func mul(a, b)",
    "    return a * b;",
    "end",
    "",
    "func div(a, b)",
    "    return a / b;",
    "end",
    "",
    "# generate a list with random numbers",
    "func rand_list(size, type)",
    "    var res = []",
    "    if type == int then",
    "        for i=0 to size do",
    "           var gen = random() * 1000000",
    "           append(res, gen) ",
    "        end",
    "    else if type == float then",
    "        for i=0 to size do",
    "            append(res, random()) ",
    "         end",
    "    else",
    "        error(\"Type not supported for rand_list\")",
    "    end",
    "",
    "    return res",
    "end"]

def stringLines : List String := [
    "# All string related functions for now its empty",
    "",
    "ascii_lowercase = \"abcdefghijklmnopqrstuvwxyz\"",
    "ascii_uppercase = \"ABCDEFGHIJKLMNOPQRSTUVWXYZ\"",
    "ascii_letters = ascii_lowercase + ascii_uppercase",
    "digits = \"0123456789\"",
    "hexdigits = digits + \"abcdef\" + \"ABCDEF\"",
    "",
    "",
    "func reverse_string(inp)",
    "    res = \"\"",
    "    for i = len(inp)-1 to -1 step -1 do",
    "        res = res + (inp>i)",
    "    end",
    "    return res",
    "end",
    "",
    "# Create a script that can simple config file it goes as:",
    "# 1. can parse this: \"key=value\"",
    "# 2. append it using append funciton in a 2D list for example: [[\"key\", \"value\"], [\"key2\", \"value2\"]]",
    "# 3. print all the key value pair found in config.ini file"]

/-- The library's files, by their paths from the home directory. -/
def files : List (String × String) :=
  [("src/std/math.think", "\n".intercalate mathLines),
    ("src/std/string.think", "\n".intercalate stringLines)]

/-- Puts the library into place. -/
def install (t : FileTree) : FileTree :=
  files.foldl (fun t (path, text) => t.place t.homePath path text) t

end Think.Library
