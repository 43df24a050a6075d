/-
The path parser: `fs/pparser.c`, with the string functions it uses.

A string is the list of its bytes, followed by its terminator. A parsed
path is its parts in order, each with the two blocks it stands on: its
node and its string. Blocks come from an `Allocator`; a result `none` is
a write through null, which the parser makes wherever a block it needs is
refused.
-/
import BenOS.Fat.Dir

namespace BenOS.Fs

open Fat

variable {σ : Type}

-- ================================================================= strings

/-- `strlen` -/
def strlen (str : List UInt8) : Nat := (str.takeWhile fun c => c != 0).length

/-- `strnlen` -/
def strnlen (str : List UInt8) (max : Nat) : Nat := min (strlen str) max

/-- `isdigit` -/
def isdigit (c : UInt8) : Bool := 48 ≤ c && c ≤ 57

/-- `tonum` -/
def tonum (c : UInt8) : Int := (c.toNat : Int) - 48

-- =================================================================== paths

/-- `struct path_part`: its address, and its string with the string's
address. -/
structure PathPart where
  addr : Addr
  str : Addr
  part : List UInt8

/-- `struct path_root`, with the parts that hang on it. -/
structure PathRoot where
  addr : Addr
  driveNo : Int
  parts : List PathPart

/-- `sizeof(struct path_root)` -/
abbrev sizeofPathRoot : Nat := 8

/-- `sizeof(struct path_part)` -/
abbrev sizeofPathPart : Nat := 8

/-- `pathparser_path_valid_format` -/
def pathparserPathValidFormat (fname : List UInt8) : Bool :=
  3 ≤ strnlen fname benosMaxPath && isdigit (fname.getD 0 0)
    && fname.getD 1 0 == 0x3A && fname.getD 2 0 == 0x2F

/-- `pathparser_get_drive_by_path`: the drive and the path behind it. -/
def pathparserGetDriveByPath (path : List UInt8) : Int × List UInt8 :=
  if !pathparserPathValidFormat path then (-ebadpath, path)
  else (tonum (path.getD 0 0), path.drop 3)

/-- The bytes a part of a path ends at. -/
def endsPart (c : UInt8) : Bool := c == 0x2F || c == 0x00

/-- The loop of `pathparser_get_path_part` on its buffer, from byte `i` of
the buffer on; `none` is a write behind the buffer. -/
def pathparserCopyPart : List UInt8 → Nat → List UInt8 → Option (List UInt8)
  | [], _, buf => some buf
  | c :: path, i, buf =>
      if endsPart c then some buf
      else if i < buf.length then pathparserCopyPart path (i + 1) (buf.set i c)
      else none

/-- `pathparser_get_path_part`: the string with its address, null where
the part is empty, and the path behind it. -/
def pathparserGetPathPart (al : Allocator σ) (path : List UInt8) (s : σ) :
    Option (Option (Addr × List UInt8) × List UInt8 × σ) :=
  let r := al.kzalloc benosMaxPath s
  let part := path.takeWhile fun c => !endsPart c
  let path := path.dropWhile fun c => !endsPart c
  let path := if path.headD 0 = 0x2F then path.tail else path
  if part = [] then some (none, path, al.kfree r.1 r.2)
  else
    match r.1 with
    | none => none
    | some str => some (some (str, part), path, r.2)

/-- `pathparser_parse_path_part`; what links a part to the one before is
its place in the list. -/
def pathparserParsePathPart (al : Allocator σ) (path : List UInt8) (s : σ) :
    Option (Option PathPart × List UInt8 × σ) := do
  let (str, path, s) ← pathparserGetPathPart al path s
  match str with
  | none => some (none, path, s)
  | some (str, part) =>
      match al.kzalloc sizeofPathPart s with
      | (none, _) => none
      | (some addr, s) => some (some ⟨addr, str, part⟩, path, s)

/-- The loop of `pathparser_parse`: parts are parsed until one is empty.
A part has at least a byte, so one round more than the path has bytes is
never used up. -/
def pathparserLoop (al : Allocator σ) :
    Nat → List UInt8 → σ → Option (List PathPart × σ)
  | 0, _, _ => none
  | fuel + 1, path, s => do
      let (part, path, s) ← pathparserParsePathPart al path s
      match part with
      | none => some ([], s)
      | some part =>
          let (parts, s) ← pathparserLoop al fuel path s
          some (part :: parts, s)

/-- The loop of `pathparser_free`: a part's string goes before its node. -/
def pathparserFreeLoop (al : Allocator σ) : List PathPart → σ → σ
  | [], s => s
  | part :: parts, s =>
      pathparserFreeLoop al parts
        (al.kfree (some part.addr) (al.kfree (some part.str) s))

/-- `pathparser_free` -/
def pathparserFree (al : Allocator σ) (root : PathRoot) (s : σ) : σ :=
  al.kfree (some root.addr) (pathparserFreeLoop al root.parts s)

/-- `pathparser_parse` -/
def pathparserParse (al : Allocator σ) (path : List UInt8) (s : σ) :
    Option (Option PathRoot × σ) :=
  if strlen path > benosMaxPath then some (none, s)
  else
    let drive := pathparserGetDriveByPath path
    if drive.1 < 0 then some (none, s)
    else
      match al.kzalloc sizeofPathRoot s with
      | (none, _) => none
      | (some addr, s) => do
          let (parts, s) ← pathparserLoop al (path.length + 1) drive.2 s
          some (some ⟨addr, drive.1, parts⟩, s)

end BenOS.Fs
