import Clubcos.Lib.Word
import Clubcos.Terminal.Array

/-!
# snprintf.c

`vsnprintf` reads its format a character or a conversion at a time.  What a step is to store, a `Piece`, depends on the
conversion and its arguments only; `Piece.print` stores it, as far as the counter `size` lets it.

* `directives`   the format: flags, width, precision, length and the letter of each conversion;
* `fetch`        the arguments of a conversion, and the piece that they make;
* `put`          the store behind a test of the counter, and the other stores;
* `vsnprintf`    the loop, and the `'\0'` at its end.

Numbers have 32 bits, as `int`, `long`, `size_t` and pointers do.
-/

set_option linter.unusedVariables false

namespace Clubcos
open Word

def chr (c : Char) : Byte := BitVec.ofNat 8 c.toNat

/-! ## the format -/

structure Flags where
  zeropad : Bool
  sign : Bool
  plus : Bool
  space : Bool
  left : Bool
  special : Bool
  large : Bool

def Flags.none : Flags := ⟨false, false, false, false, false, false, false⟩

/-- a width or a precision: in the format, -1 if it is not there, or `*` -/
inductive Amount where
  | given (n : Int)
  | star

/-- the letters of conversions; `unknown` is any other -/
inductive Letter where
  | c | s | p | d | u | o | X | x | n | percent | unknown

structure Conversion where
  flags : Flags
  width : Amount
  precision : Amount
  length : Option Byte
  letter : Letter

inductive Directive where
  | char (c : Byte)
  | conversion (v : Conversion)

def isdigit (c : Byte) : Bool := decide (0x30 ≤ c.toNat) && decide (c.toNat ≤ 0x39)

def is_length (c : Byte) : Bool := c == chr 'h' || c == chr 'l' || c == chr 'L'

/-- `*fmt`: the `'\0'` stands behind the characters -/
def peek (fmt : List Byte) : Byte := fmt.headD 0

def parseFlags (flags : Flags) : List Byte → Flags × List Byte
  | [] => (flags, [])
  | c :: fmt =>
    if c = chr '-' then parseFlags { flags with left := true } fmt
    else if c = chr '+' then parseFlags { flags with plus := true } fmt
    else if c = chr ' ' then parseFlags { flags with space := true } fmt
    else if c = chr '#' then parseFlags { flags with special := true } fmt
    else if c = chr '0' then parseFlags { flags with zeropad := true } fmt
    else (flags, c :: fmt)

def skip_atoi (i : Int) : List Byte → Int × List Byte
  | [] => (i, [])
  | c :: s => if isdigit c then skip_atoi (int32 (i * 10 + c.toNat - 0x30)) s else (i, c :: s)

def parseWidth (fmt : List Byte) : Amount × List Byte :=
  if isdigit (peek fmt) then
    let (n, fmt) := skip_atoi 0 fmt
    (.given n, fmt)
  else if peek fmt = chr '*' then (.star, fmt.tail)
  else (.given (-1), fmt)

/-- no precision behind the dot is the precision 0, as a negative one is -/
def parsePrecision (fmt : List Byte) : Amount × List Byte :=
  if peek fmt = chr '.' then
    let fmt := fmt.tail
    if isdigit (peek fmt) then
      let (n, fmt) := skip_atoi 0 fmt
      (.given (max n 0), fmt)
    else if peek fmt = chr '*' then (.star, fmt.tail)
    else if is_length (peek fmt) && peek fmt.tail == chr 's' then (.given 0, fmt.tail)
    else (.given 0, fmt)
  else (.given (-1), fmt)

def parseLength (fmt : List Byte) : Option Byte × List Byte :=
  if is_length (peek fmt) then (some (peek fmt), fmt.tail) else (none, fmt)

/-- the letter, with the flags that it sets -/
def letterOf (flags : Flags) (c : Byte) : Option (Flags × Letter) :=
  if c = chr 'c' then some (flags, .c)
  else if c = chr 's' then some (flags, .s)
  else if c = chr 'p' then some (flags, .p)
  else if c = chr 'd' ∨ c = chr 'i' then some ({ flags with sign := true }, .d)
  else if c = chr 'u' then some (flags, .u)
  else if c = chr 'o' then some (flags, .o)
  else if c = chr 'X' then some ({ flags with large := true }, .X)
  else if c = chr 'x' then some (flags, .x)
  else if c = chr 'n' then some (flags, .n)
  else if c = chr '%' then some (flags, .percent)
  else none

/-- the format behind a `'%'`, up to the letter -/
def parseConversion (fmt : List Byte) : Flags × Amount × Amount × Option Byte × List Byte :=
  let (flags, fmt) := parseFlags .none fmt
  let (width, fmt) := parseWidth fmt
  let (precision, fmt) := parsePrecision fmt
  let (length, fmt) := parseLength fmt
  (flags, width, precision, length, fmt)

/-- One round of the loop, with `fmt` behind the character `c`: the directive and the format behind it.  An unknown
letter is skipped together with the character behind it; `none` if that is behind the `'\0'`. -/
def nextDirective (c : Byte) (fmt : List Byte) : Option (Directive × List Byte) :=
  if c = chr '%' then
    let (flags, width, precision, length, fmt) := parseConversion fmt
    match letterOf flags (peek fmt) with
    | some (flags, letter) => some (.conversion ⟨flags, width, precision, length, letter⟩, fmt.tail)
    | none =>
      match fmt with
      | _ :: _ :: fmt => some (.conversion ⟨flags, width, precision, length, .unknown⟩, fmt)
      | _ => none
  else some (.char c, fmt)

/-- The format, in at most `steps` rounds: as many as it has characters are enough. -/
def directives : (steps : Nat) → List Byte → Option (List Directive)
  | _, [] => some []
  | 0, _ :: _ => none
  | steps + 1, c :: fmt =>
    (nextDirective c fmt).bind fun (d, fmt) => (directives steps fmt).map (d :: ·)

/-! ## the arguments -/

inductive Arg where
  /-- an `int`, `unsigned`, `long` or `void *` -/
  | word (x : BitVec 32)
  /-- a `const char *`: NULL, or the bytes in front of a `'\0'` -/
  | str (s : Option (List Byte))
  /-- where `%n` stores -/
  | ptr

/-- what a step stores, in this order -/
inductive Piece where
  /-- characters, each behind a test of the counter -/
  | text (t : List Byte)
  /-- `%s`: the blanks in front, `len` as a `size_t`, the characters that are copied, the blanks behind -/
  | string (pads len : Nat) (s : List Byte) (blanks : Nat)
  /-- `number`: up to the prefix of `%#x`, the prefix, the rest -/
  | number (lead : List Byte) (hex : Bool) (rest : List Byte)
  /-- `%n` -/
  | count

/-- `while (m < n--)`: the number of rounds, and `n` behind the loop -/
def countDown (m n : Int) : Nat × Int := if m < n then ((n - m).toNat, int32 (m - 1)) else (0, int32 (n - 1))

/-- `while (--n > 0)` -/
def countPre (n : Int) : Nat × Int := if 0 < int32 (n - 1) then ((int32 (n - 1)).toNat, 0) else (0, int32 (n - 1))

/-- The digit table.  An index below 0 reads in front of it, `front` tells what is there. -/
def digitAt (front : Nat → Byte) (large : Bool) (k : Int) : Byte :=
  if k < 0 then front (-k).toNat
  else if k < 10 then BitVec.ofNat 8 (0x30 + k.toNat)
  else if large then BitVec.ofNat 8 (0x41 + (k.toNat - 10))
  else BitVec.ofNat 8 (0x61 + (k.toNat - 10))

/-- `do { tmp[i++] = dig[num % base]; num = num / base; } while (num != 0)`, in at most `rounds` rounds -/
def digitLoop (dig : Int → Byte) (base : Int) : (rounds : Nat) → Int → List Byte
  | 0, _ => []
  | rounds + 1, num =>
    dig (num.tmod base) :: if num.tdiv base = 0 then [] else digitLoop dig base rounds (num.tdiv base)

/-- what `number` stores; `tmp` has room for 129 digits -/
def number (front : Nat → Byte) (num : BitVec 32) (base : Int) (size precision : Int) (type : Flags) : Piece :=
  let dig := digitAt front type.large
  let zeropad := type.zeropad && !type.left
  let c := if zeropad then chr '0' else chr ' '
  let (sign, n, size) :=
    if type.sign then
      if num.toInt < 0 then ([chr '-'], int32 (-num.toInt), int32 (size - 1))
      else if type.plus then ([chr '+'], num.toInt, int32 (size - 1))
      else if type.space then ([chr ' '], num.toInt, int32 (size - 1))
      else ([], num.toInt, size)
    else ([], num.toInt, size)
  let size := if type.special then
      if base = 16 then int32 (size - 2) else if base = 8 then int32 (size - 1) else size
    else size
  let tmp := if n = 0 then [chr '0']
    else if type.sign then digitLoop dig base 129 n else digitLoop dig base 129 num.toNat
  let precision := if precision < tmp.length then (tmp.length : Int) else precision
  let size := int32 (size - precision)
  let (blanks, size) := if !zeropad && !type.left then countDown 0 size else (0, size)
  let octal := if type.special ∧ base = 8 then [chr '0'] else []
  let (fill, size) := if !type.left then countDown 0 size else (0, size)
  let zeros := (countDown tmp.length precision).1
  let behind := (countDown 0 size).1
  .number (List.replicate blanks (chr ' ') ++ sign ++ octal) (type.special && base == 16)
    (List.replicate fill c ++ List.replicate zeros (chr '0') ++ tmp.reverse ++ List.replicate behind (chr ' '))

/-- `%c` -/
def charPiece (flags : Flags) (width : Int) (c : Byte) : Piece :=
  let (pads, width) := if flags.left then (0, width) else countPre width
  let blanks := (countPre width).1
  .text (List.replicate pads (chr ' ') ++ [c] ++ List.replicate blanks (chr ' '))

def strnlen : List Byte → (size : Nat) → Nat
  | [], _ => 0
  | c :: s, size => if c ≠ 0 ∧ 0 < size then strnlen s (size - 1) + 1 else 0

/-- the string for NULL -/
def nullString : List Byte := ['<', 'N', 'U', 'L', 'L', '>'].map chr

/-- `%s` -/
def stringPiece (flags : Flags) (width precision : Int) (s : Option (List Byte)) : Piece :=
  let s := s.getD nullString
  let size := strnlen s (precision % 2^32).toNat
  let len := int32 size
  let (pads, width) := if flags.left then (0, width) else countDown len width
  let blanks := (countDown len width).1
  .string pads (u32 size) (s.take len.toNat) blanks

def vaWord : List Arg → Option (BitVec 32 × List Arg)
  | .word x :: args => some (x, args)
  | _ => none

def vaStr : List Arg → Option (Option (List Byte) × List Arg)
  | .str s :: args => some (s, args)
  | _ => none

def vaPtr : List Arg → Option (List Arg)
  | .ptr :: args => some args
  | _ => none

/-- the flags and the width, where a negative argument for `*` sets a flag -/
def Conversion.fetchWidth (v : Conversion) (args : List Arg) : Option (Flags × Int × List Arg) :=
  match v.width with
  | .given n => some (v.flags, n, args)
  | .star => (vaWord args).map fun (x, args) =>
    if x.toInt < 0 then ({ v.flags with left := true }, int32 (-x.toInt), args) else (v.flags, x.toInt, args)

def Conversion.fetchPrecision (v : Conversion) (args : List Arg) : Option (Int × List Arg) :=
  match v.precision with
  | .given n => some (n, args)
  | .star => (vaWord args).map fun (x, args) => (max x.toInt 0, args)

/-- `none` if the next argument is not of the type that the letter takes -/
def Letter.fetch (front : Nat → Byte) (flags : Flags) (width precision : Int) (args : List Arg) :
    Letter → Option (Piece × List Arg)
  | .c => (vaWord args).map fun (num, args) => (charPiece flags width (num.setWidth 8), args)
  | .s => (vaStr args).map fun (str, args) => (stringPiece flags width precision str, args)
  | .p => (vaWord args).map fun (num, args) =>
    (if width = -1 then number front num 16 (2 * 4 + 2) precision { flags with zeropad := true, special := true }
      else number front num 16 width precision flags, args)
  | .d | .u => (vaWord args).map fun (num, args) => (number front num 10 width precision flags, args)
  | .o => (vaWord args).map fun (num, args) => (number front num 8 width precision flags, args)
  | .X | .x => (vaWord args).map fun (num, args) => (number front num 16 width precision flags, args)
  | .n => (vaPtr args).map fun args => (.count, args)
  | .percent => some (.text [chr '%'], args)
  | .unknown => some (.text [], args)

/-- the piece of a step, and the arguments behind it -/
def Directive.fetch (front : Nat → Byte) (args : List Arg) : Directive → Option (Piece × List Arg)
  | .char c => some (.text [c], args)
  | .conversion v => (v.fetchWidth args).bind fun (flags, width, args) =>
    (v.fetchPrecision args).bind fun (precision, args) => v.letter.fetch front flags width precision args

/-! ## the stores -/

/-- the buffer and the two variables of `vsnprintf` that count -/
structure Out where
  size : BitVec 32
  /-- `str - buf` -/
  str : Nat
  buf : Nat → Byte
  /-- where something has been stored, from `buf` on -/
  stores : List Nat
  /-- what `%n` has stored -/
  counts : List Nat

/-- `*str = c` -/
def Out.store (o : Out) (c : Byte) : Out :=
  { o with buf := Function.update o.buf o.str c, stores := o.stores ++ [o.str] }

/-- `*str++ = c` -/
def Out.push (o : Out) (c : Byte) : Out := { o.store c with str := o.str + 1 }

/-- `size--` -/
def Out.tick (o : Out) : Out := { o with size := o.size - 1 }

/-- `if (size-- == 1) goto end; *str++ = c;` -/
def put (c : Byte) (o : Out) : Except Out Out := if o.size = 1 then .error o.tick else .ok (o.tick.push c)

def putAll : List Byte → Out → Except Out Out
  | [], o => .ok o
  | c :: t, o => (put c o).bind (putAll t)

/-- `if (size-- == 1) goto end; *str = ' ';` for the blanks in front of a string -/
def padString : Nat → Out → Except Out Out
  | 0, o => .ok o
  | pads + 1, o => if o.size = 1 then .error o.tick else padString pads (o.tick.store (chr ' '))

/-- `if (size <= len) goto end; size -= len;` and the copy -/
def copyString (len : Nat) (s : List Byte) (o : Out) : Except Out Out :=
  if o.size.toNat ≤ len then .error o else .ok (s.foldl Out.push { o with size := o.size - BitVec.ofNat 32 len })

/-- `*str++ = ' '; if (size-- == 1) goto end;` for the blanks behind a string -/
def trailBlanks : Nat → Out → Except Out Out
  | 0, o => .ok o
  | blanks + 1, o =>
    if o.size = 1 then .error (o.push (chr ' ')).tick else trailBlanks blanks (o.push (chr ' ')).tick

/-- `if (*pbufsize <= 2) return str; *pbufsize -= 2;` and the two characters -/
def hexPrefix (hex : Bool) (o : Out) : Except Out Out :=
  if hex then
    if o.size ≤ 2 then .error o else .ok ([chr '0', chr 'x'].foldl Out.push { o with size := o.size - 2 })
  else .ok o

def merge : Except Out Out → Out
  | .ok o | .error o => o

/-- An `error` is a `goto end`.  The stores of `number` that are cut off only end `number`. -/
def Piece.print (o : Out) : Piece → Except Out Out
  | .text t => putAll t o
  | .string pads len s blanks => ((padString pads o).bind (copyString len s)).bind (trailBlanks blanks)
  | .number lead hex rest =>
    let o := merge (((putAll lead o).bind (hexPrefix hex)).bind (putAll rest))
    if o.size = 1 then .error o else .ok o
  | .count => .ok { o with counts := o.counts ++ [o.str] }

/-! ## the loop -/

structure Printed where
  buf : Nat → Byte
  stores : List Nat
  counts : List Nat
  /-- the 32 bits that are returned -/
  ret : Nat

/-- `none` if a conversion does not find its arguments -/
def printDirectives (front : Nat → Byte) : List Directive → List Arg → Out → Option Out
  | [], _, o => some o
  | d :: ds, args, o => (d.fetch front args).bind fun (p, args) =>
    match p.print o with
    | .error o => some o
    | .ok o => printDirectives front ds args o

/-- `*str = '\0'; return str - buf;` -/
def Out.finish (o : Out) : Printed := ⟨(o.store 0).buf, (o.store 0).stores, o.counts, u32 o.str⟩

def Out.start (buf : Nat → Byte) (size : BitVec 32) : Out := ⟨size, 0, buf, [], []⟩

/-- the format up to its `'\0'` -/
def parseFormat (fmt : List Byte) : Option (List Directive) :=
  let fmt := fmt.takeWhile (· ≠ 0)
  directives fmt.length fmt

def vsnprintf (front : Nat → Byte) (buf : Nat → Byte) (size : BitVec 32) (fmt : List Byte) (args : List Arg) :
    Option Printed :=
  if size = 0 then some ⟨buf, [], [], 0⟩
  else if size = 1 then some ⟨Function.update buf 0 0, [0], [], 0⟩
  else (parseFormat fmt).bind fun ds => (printDirectives front ds args (.start buf size)).map Out.finish

end Clubcos
