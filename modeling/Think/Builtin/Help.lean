/-! # Help texts

What the functions of the language say about themselves. -/

namespace Think.Help

def overviewLines : List String := [
    "help - [",
    "            <builtin function>:",
    "                help - print this message",
    "                help_for(function_name) - print help for a function : args = function name " ++
      "-> string",
    "                clear - clear the screen -> null",
    "                exit - exit the script: -> null",
    "                print(object) - print a string or any object : string, <- null",
    "                sleep(seconds) - sleep for a number of seconds : int",
    "                typeof(object) - get the type of the object: int, string, list, func, " ++
      "null, bool, File",
    "                gets(string) - input / prompt for a value and return it : args = string",
    "                is_num(object) - check if the value is a number : args = any type -> bool",
    "                is_str(object) - check if the value is a string : args = any type -> bool",
    "                is_list(object) - check if the value is a list -> bool : args = any type " ++
      "-> bool",
    "                is_func(object) - check if the value is a function : args = any type -> bool",
    "                append(string or list, object) - append a string to a string or any value " ++
      "to a list: args = object: string, value:any -> list",
    "                extend(list, object) - extend a list with another list: args = list, list " ++
      "-> list",
    "                replace(string, from, to) - replace a string with value: args = string, " ++
      "from, to -> string",
    "                len(string or list) - get the length of a list or string: args = string, " ++
      "list -> int",
    "                open_file(string) - open a file for reading or writing : " ++
      "open_file(\"file_name\") returns File object to do file operations use " ++
      "read_stream/write_stream",
    "                read_stream(File) - read string from entire file: args = File",
    "                write_stream(File, string) - write string to file: args = File, string",
    "                file_exists(File) - check if file exists: args = string -> bool",
    "                split(string, sperator) - split a string into a list: args = string: " ++
      "string, seperator: string -> list",
    "                tostr(object) - convert any value to a string: args = any type -> string",
    "                toint(object, bool) - convert a String/Number value to an integer, takes " ++
      "value and boolean as to supress error if bad value: args = string, bool -> int",
    "                tofloat(object, bool) - convert a String/Number value to a float, takes " ++
      "value and boolean as to supress error if bad value: args = string, bool -> float",
    "                get_now - get the current time: -> int",
    "                get_env(string) - get the value of an environment variable: string -> string",
    "                set_env(string, string) - set an environment variable: string, string -> null",
    "                get_dir - get the current working directory: -> string",
    "                set_dir(string) - set the current working directory: string -> null",
    "                random - get a random number: -> float",
    "                rand_int(min, max) - get a random integer: -> int",
    "                rand_seed(int) - set the random seed: int -> null",
    "                rand_pick(list) - pick a random item from a list: list -> any",
    "                run(string) - run a ThinkLang file: Run(\"file_name\")",
    "                error(message) - raise an runtime error: string -> null",
    "            <builtin types>:",
    "                int - integer : 123",
    "                string - string : \"hello\"",
    "                list - list : [string, int, list, func, null, bool]",
    "                func - function:  lambdas,  func name(arg1, arg2) -> arg1 + arg2",
    "                null - null: null = 0",
    "                bool - boolean : true, false, 1, 0",
    "",
    "            <lang rules>:",
    "                get index element from list: list_name>index",
    "                get index element from string: string_name>index",
    "",
    "    ]",
    "exit() - exit the shell ",
    ""]

/-- The overview of all functions. -/
def overview : String := "\n".intercalate overviewLines

structure Topic where
  text : String
  args : String
  returns : String

def topics : List (String × Topic) := [
    ("clear", ⟨"clear the screen", "", "null"⟩),
    ("help", ⟨"print this message", "", "string"⟩),
    ("help_for", ⟨"print help for a function", "function_name", "string"⟩),
    ("split", ⟨"split a string into a list", "string, separator", "list"⟩),
    ("exit", ⟨"exit the script", "", "null"⟩),
    ("print", ⟨"print a string or any object", "string/object", "string"⟩),
    ("sleep", ⟨"sleep for a number of seconds", "int", "null"⟩),
    ("typeof", ⟨"get the type of the object", "any type", "string"⟩),
    ("gets", ⟨"input / prompt for a value and return it", "string", "string"⟩),
    ("is_num", ⟨"check if the value is a number object", "any type", "bool"⟩),
    ("is_str", ⟨"check if the value is a string object", "any type", "bool"⟩),
    ("is_list", ⟨"check if the value is a list object", "any type", "bool"⟩),
    ("is_func", ⟨"check if the value is a function object", "any type", "bool"⟩),
    ("append", ⟨"append a string to a string or any value to a list", "string, string/list",
      "null"⟩),
    ("extend", ⟨"extend a list with another list", "list, list", "null"⟩),
    ("len", ⟨"get the length of a list or string", "list/string", "int"⟩),
    ("replace", ⟨"replace a string with value: args = string, from, to -> string",
      "string, from, to", "string"⟩),
    ("open_file", ⟨"open a file for reading or writing to do file operations use " ++
      "read_stream/write_stream", "string", "File"⟩),
    ("read_stream", ⟨"read string from entire file", "File", "string"⟩),
    ("write_stream", ⟨"write string to file", "File, string", "null"⟩),
    ("file_exists", ⟨"check if file exists", "string", "bool"⟩),
    ("tostr", ⟨"convert any value to a string", "any type", "string"⟩),
    ("toint", ⟨"convert a String/Number value to an integer", "any type", "int"⟩),
    ("get_now", ⟨"get the current time", "", "int"⟩),
    ("get_env", ⟨"get the value of an environment variable", "string", "string"⟩),
    ("set_env", ⟨"set an environment variable", "string, string", "null"⟩),
    ("get_dir", ⟨"get the current working directory", "", "string"⟩),
    ("set_dir", ⟨"set the current working directory", "string", "null"⟩),
    ("random", ⟨"get a random number", "", "int"⟩),
    ("rand_int", ⟨"get a random integer", "min, max", "int"⟩),
    ("rand_seed", ⟨"set the random seed", "int", "null"⟩),
    ("rand_pick", ⟨"pick a random item from a list", "list", "any"⟩),
    ("join", ⟨"join a list of strings into a string", "string, list", "string"⟩),
    ("run", ⟨"run a ThinkLang file", "string", "null"⟩),
    ("error", ⟨"raise an runtime error with message", "string", "null"⟩)]

def gap : String := "\n                \r"

def Topic.page (t : Topic) : String :=
  "-" ++ t.text ++ gap ++ "\t- args: " ++ t.args ++ gap ++ "\t- returns: " ++ t.returns

/-- The name of the one topic that lists kinds of values and has no page of its own. -/
def kindsTopic : String := "<builtin types>"

end Think.Help
