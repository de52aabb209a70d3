/-! # Functions of the language

The functions that every program finds defined, with the names of their parameters.
-/

namespace Think

inductive Builtin
  | append | clear | error | exit | extend | fileExists | getDir | getEnv | getNow | gets | help
  | helpFor | isFunction | isList | isNumber | isString | join | len | openFile | pop | print
  | randInt | randPick | randSeed | random | readStream | replace | run | setDir | setEnv | sleep
  | split | sys | tofloat | toint | tostr | typeOf | version | writeStream
  deriving DecidableEq, Repr

namespace Builtin

def name : Builtin → String
  | append => "append" | clear => "clear" | error => "error" | exit => "exit"
  | extend => "extend" | fileExists => "file_exists" | getDir => "get_dir"
  | getEnv => "get_env" | getNow => "get_now" | gets => "gets" | help => "help"
  | helpFor => "help_for" | isFunction => "is_function" | isList => "is_list"
  | isNumber => "is_number" | isString => "is_string" | join => "join" | len => "len"
  | openFile => "open_file" | pop => "pop" | print => "print" | randInt => "rand_int"
  | randPick => "rand_pick" | randSeed => "rand_seed" | random => "random"
  | readStream => "read_stream" | replace => "replace" | run => "run" | setDir => "set_dir"
  | setEnv => "set_env" | sleep => "sleep" | split => "split" | sys => "sys"
  | tofloat => "tofloat" | toint => "toint" | tostr => "tostr" | typeOf => "type_of"
  | version => "version" | writeStream => "write_stream"

/-- All of them, in the order of their names. -/
def all : List Builtin :=
  [append, clear, error, exit, extend, fileExists, getDir, getEnv, getNow, gets, help, helpFor,
    isFunction, isList, isNumber, isString, join, len, openFile, pop, print, randInt, randPick,
    randSeed, random, readStream, replace, run, setDir, setEnv, sleep, split, sys, tofloat, toint,
    tostr, typeOf, version, writeStream]

def ofName? (n : String) : Option Builtin := all.find? (·.name = n)

def params : Builtin → List String
  | append => ["object", "value"]
  | clear | exit | getDir | getNow | help | random | version => []
  | error => ["message"]
  | extend => ["listA", "listB"]
  | fileExists | openFile => ["file_path"]
  | getEnv | setDir => ["name"]
  | gets => ["prompt"]
  | helpFor => ["funcname"]
  | isFunction | isList | isNumber | isString | len | print | tostr | typeOf => ["value"]
  | join => ["sep", "elements"]
  | pop => ["list", "index"]
  | randInt => ["min", "max"]
  | randPick => ["arr"]
  | randSeed => ["seed"]
  | readStream => ["file"]
  | replace => ["string", "value", "with"]
  | run => ["fn"]
  | setEnv => ["name", "value"]
  | sleep => ["seconds"]
  | split => ["string", "sep"]
  | sys => ["command"]
  | tofloat | toint => ["value", "supress_error"]
  | writeStream => ["file", "text"]

end Builtin

end Think
