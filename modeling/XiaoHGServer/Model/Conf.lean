import XiaoHGServer.Library.CString
import XiaoHGServer.Model.Comm

/-!
# Configuration files

`CConfig` and the trimming functions it uses. `LineBuf` is a list of bytes; a
`CONF_ITEM` is a memory in which the name overflows into the content, as it does in
the object, and which records what each call that fills it reads and writes.
-/

namespace XiaoHGServer

/-! ### Characters -/

def tab : Byte := 9
def newline : Byte := 10
def carriageReturn : Byte := 13
def space : Byte := 32
def equalsSign : Byte := 61

def isSpace (c : Byte) : Bool := c == space || (9 ≤ c.toNat && c.toNat ≤ 13)

def isDigit (c : Byte) : Bool := 48 ≤ c.toNat && c.toNat ≤ 57

def toLower (c : Byte) : Byte := if 65 ≤ c.toNat && c.toNat ≤ 90 then c + 32 else c

def strcasecmp : List Byte → List Byte → ℤ
  | [], [] => 0
  | [], d :: _ => -((toLower d).toNat : ℤ)
  | c :: _, [] => (toLower c).toNat
  | c :: cs, d :: ds =>
    let diff : ℤ := (toLower c).toNat - (toLower d).toNat
    if diff ≠ 0 then diff else strcasecmp cs ds

def digitsValue (s : List Byte) : ℤ := s.foldl (fun n c => 10 * n + (c.toNat - 48)) 0

/-- `strtol` to base 10, which stops at the limits of a `long`. -/
def strtol (s : List Byte) : ℤ :=
  let s := s.dropWhile isSpace
  match s with
  | [] => 0
  | c :: rest =>
    if c = 45 then max (-2 ^ 63) (-digitsValue (rest.takeWhile isDigit))
    else if c = 43 then min (2 ^ 63 - 1) (digitsValue (rest.takeWhile isDigit))
    else min (2 ^ 63 - 1) (digitsValue (s.takeWhile isDigit))

def atoi (s : List Byte) : ℤ := (strtol s).bmod (2 ^ 32)

/-! ### `Rtrim` and `Ltrim` -/

def sizeofItemName : ℕ := 50
def sizeofItemContent : ℕ := 500
def sizeofConfItem : ℕ := sizeofItemName + sizeofItemContent

open Memory

/-- `while(len > 0 && string[len-1] == ' ') string[--len] = 0;` -/
def rtrimLoop (m : Memory Byte) (string : ℕ) : ℕ → Memory Byte
  | 0 => m
  | len + 1 =>
    let (m, c) := m.load (string + len)
    if c = space then rtrimLoop (m.store (string + len) 0) string len else m

/-- `Rtrim`, for a pointer that is not null. -/
def rtrim (m : Memory Byte) (string : ℕ) : Memory Byte :=
  let (m, len) := strlen sizeofConfItem m string
  rtrimLoop m string len

/-- The first loop of `Ltrim`: `p_tmp` passes the spaces. -/
def ltrimSkip : ℕ → Memory Byte → ℕ → Memory Byte × ℕ
  | 0, m, pTmp => (m, pTmp)
  | fuel + 1, m, pTmp =>
    let (m, c) := m.load pTmp
    if c = 0 then (m, pTmp)
    else
      let (m, c) := m.load pTmp
      if c = space then ltrimSkip fuel m (pTmp + 1) else (m, pTmp)

/-- The second loop of `Ltrim`: the rest of the string moves down to `p_tmp2`. -/
def ltrimMove : ℕ → Memory Byte → ℕ → ℕ → Memory Byte
  | 0, m, _, pTmp2 => m.store pTmp2 0
  | fuel + 1, m, pTmp, pTmp2 =>
    let (m, c) := m.load pTmp
    if c = 0 then m.store pTmp2 0
    else
      let (m, c) := m.load pTmp
      ltrimMove fuel (m.store pTmp2 c) (pTmp + 1) (pTmp2 + 1)

def ltrim (m : Memory Byte) (string : ℕ) : Memory Byte :=
  let (m, _) := strlen sizeofConfItem m string
  let (m, c) := m.load string
  if c ≠ space then m
  else
    let (m, pTmp) := ltrimSkip sizeofConfItem m string
    let (m, c) := m.load pTmp
    if c = 0 then m.store string 0
    else ltrimMove sizeofConfItem m pTmp string

/-! ### `CConfig` -/

/-- A `CONF_ITEM`, after each of the calls that fill it: `ItemName` from cell 0 on, `ItemContent`
behind it. Every memory has the record of its own call only. -/
structure ConfItem where
  nameCopied : Memory Byte
  contentCopied : Memory Byte
  nameRtrimmed : Memory Byte
  nameLtrimmed : Memory Byte
  contentRtrimmed : Memory Byte
  contentLtrimmed : Memory Byte

/-- The same cells with an empty record. -/
def unrecorded (m : Memory Byte) : Memory Byte := ⟨m.cell, []⟩

/-- The item of a line with text `line` and its first `=` at `n`. -/
def newConfItem (line : List Byte) (n : ℕ) : ConfItem :=
  let zeroed : Memory Byte := ⟨fun _ => 0, []⟩
  let m₁ := zeroed.strncpy 0 line n
  let m₂ := (unrecorded m₁).strcpy sizeofItemName (line.drop (n + 1))
  let m₃ := rtrim (unrecorded m₂) 0
  let m₄ := ltrim (unrecorded m₃) 0
  let m₅ := rtrim (unrecorded m₄) sizeofItemName
  let m₆ := ltrim (unrecorded m₅) sizeofItemName
  ⟨m₁, m₂, m₃, m₄, m₅, m₆⟩

namespace ConfItem

def itemName (x : ConfItem) : List Byte := textAt sizeofConfItem x.contentLtrimmed 0

def itemContent (x : ConfItem) : List Byte :=
  textAt sizeofConfItem x.contentLtrimmed sizeofItemName

end ConfItem

/-- A `FILE`: the bytes that have not been read, and `feof`. -/
structure ConfFile where
  rest : List Byte
  eof : Bool

/-- At most `n` bytes of a file, up to its first newline. -/
def getLine : ℕ → List Byte → List Byte × ConfFile
  | 0, rest => ([], ⟨rest, false⟩)
  | _ + 1, [] => ([], ⟨[], true⟩)
  | n + 1, c :: rest =>
    if c = newline then ([c], ⟨rest, false⟩)
    else
      let (line, fp) := getLine n rest
      (c :: line, fp)

/-- `fgets(LineBuf, n, fp)`; `none` is `NULL`. -/
def fgets (n : ℕ) (fp : ConfFile) : Option (List Byte) × ConfFile :=
  let (line, fp) := getLine (n - 1) fp.rest
  (if line = [] then none else some line, fp)

def cText (buf : List Byte) : List Byte := buf.takeWhile (· ≠ 0)

/-- `strchr`, as an index into the text. -/
def strchr (s : List Byte) (c : Byte) : Option ℕ := s.findIdx? (· == c)

/-- The first byte of a line that is not processed. -/
def isSkipped (c : Byte) : Bool :=
  c == 0 || c == 59 || c == space || c == 91 || c == 35 || c == tab || c == newline

def isTail (c : Byte) : Bool := c == newline || c == carriageReturn || c == space

/-- The jumps to `lblprocstring`. -/
def lblprocstring : ℕ → List Byte → List Byte
  | 0, lineBuf => lineBuf
  | fuel + 1, lineBuf =>
    let len := (cText lineBuf).length
    if 0 < len ∧ isTail (lineBuf.getD (len - 1) 0) = true then
      lblprocstring fuel (lineBuf.set (len - 1) 0)
    else lineBuf

/-- What `Init` does with the line in `LineBuf`. -/
def procLine (lineBuf : List Byte) : Option ConfItem :=
  if isSkipped (lineBuf.getD 0 0) then none
  else
    let lineBuf := lblprocstring lineBuf.length lineBuf
    if lineBuf.getD 0 0 = 0 then none
    else (strchr (cText lineBuf) equalsSign).map fun n => newConfItem (cText lineBuf) n

/-- `while(!feof(fp))`; `none` when `fuel` rounds are not enough. -/
def initLoop : ℕ → ConfFile → List Byte → List ConfItem → Option (List ConfItem)
  | 0, _, _, _ => none
  | fuel + 1, fp, lineBuf, configItemList =>
    if fp.eof = true then some configItemList
    else
      match fgets 500 fp with
      | (none, fp) => initLoop fuel fp lineBuf configItemList
      | (some line, fp) =>
        let lineBuf := writeAt lineBuf 0 (line ++ [0])
        initLoop fuel fp lineBuf (configItemList ++ (procLine lineBuf).toList)

namespace CConfig

/-- `m_ConfigItemList` after `Init` has read `file`. -/
def init (file : List Byte) : Option (List ConfItem) :=
  initLoop (file.length + 2) ⟨file, false⟩ (List.replicate 501 0) []

def getString (configItemList : List ConfItem) (pItemName : List Byte) : Option (List Byte) :=
  (configItemList.find? fun x => strcasecmp x.itemName pItemName == 0).map ConfItem.itemContent

def getIntDefault (configItemList : List ConfItem) (pItemName : List Byte) (defaultValue : ℤ) : ℤ :=
  match configItemList.find? fun x => strcasecmp x.itemName pItemName == 0 with
  | some x => atoi x.itemContent
  | none => defaultValue

end CConfig
end XiaoHGServer
