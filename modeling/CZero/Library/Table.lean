import CZero.Library.CharArrays
import CZero.Library.Integers
import CZero.Library.Strings
import CZero.Library.Terminal
import CZero.Library.Tokens

/-!
# The table of native functions

Programs name a native function by its slot in this table. The slots of the
libraries for command lines, files and images have names only.
-/

namespace CZero.Library

open Native

/-- The standard table, slot by slot. -/
def table : Array Native := #[
  missing "args_flag",
  missing "args_int",
  missing "args_parse",
  missing "args_string",
  offered "eof" 0 atEof,
  offered "flush" 0 flush,
  offered "print" 1 print,
  offered "printbool" 1 printBool,
  offered "printchar" 1 printChar,
  offered "printint" 1 printInt,
  offered "println" 1 printLine,
  offered "readline" 0 readLine,
  missing "file_close",
  missing "file_closed",
  missing "file_eof",
  missing "file_read",
  missing "file_readline",
  missing "image_clone",
  missing "image_create",
  missing "image_data",
  missing "image_height",
  missing "image_load",
  missing "image_save",
  missing "image_subimage",
  missing "image_width",
  offered "int_tokens" 2 intTokens,
  offered "num_tokens" 1 numTokens,
  offered "parse_bool" 1 parseBool,
  offered "parse_int" 2 parseInt,
  offered "parse_ints" 2 parseInts,
  offered "parse_tokens" 1 parseTokens,
  offered "char_chr" 1 charChr,
  offered "char_ord" 1 charOrd,
  offered "string_charat" 2 stringCharAt,
  offered "string_compare" 2 stringCompare,
  offered "string_equal" 2 stringEqual,
  offered "string_from_chararray" 1 stringFromCharArray,
  offered "string_frombool" 1 stringFromBool,
  offered "string_fromchar" 1 stringFromChar,
  offered "string_fromint" 1 stringFromInt,
  offered "string_join" 2 stringJoin,
  offered "string_length" 1 stringLength,
  offered "string_sub" 3 stringSub,
  offered "string_terminated" 2 stringTerminated,
  offered "string_to_chararray" 1 stringToCharArray,
  offered "string_tolower" 1 stringToLower,
  offered "abs" 1 absolute,
  offered "int_max" 0 greatestInt,
  offered "int_min" 0 leastInt,
  offered "int_size" 0 intBits,
  offered "int2hex" 1 hexDigits,
  offered "max" 2 maximum,
  offered "min" 2 minimum]

/-- The names of the native functions, slot by slot. -/
def names : Array String :=
  table.map (·.name)

/-- The slots that a machine with all native functions has. -/
def slots : Array (Option Native) :=
  table.map some

/-- The native function of a name. -/
def find? (name : String) : Option Native :=
  table.find? (·.name == name)

end CZero.Library
