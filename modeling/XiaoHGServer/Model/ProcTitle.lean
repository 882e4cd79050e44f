import XiaoHGServer.Library.PackedStrings
import XiaoHGServer.Model.Log

/-!
# The title of the process

`CMainArgCtl` moves the environment, so that a title may take the place of the
arguments and of what was behind them. The block with the original strings and the
memory at `m_pEnvMem` are two memories, and a pointer says which one it points into.
-/

namespace XiaoHGServer

open Memory

inductive Region
  | block
  | envMem
  deriving DecidableEq, Repr

/-- A `char *` that is not null. -/
structure CharPtr where
  region : Region
  offset : ℕ
  deriving DecidableEq, Repr

structure CMainArgCtl where
  pEnvMem : Option CharPtr
  argvNeedMemSize : BitVec 64
  envNeedMemSize : BitVec 64
  osArgc : BitVec 32

/-- The memories, `environ` without the null pointer at its end, `m_pOsArgv` with it, and the
instance. -/
structure ArgState where
  mem : Region → Memory Byte
  environ : List CharPtr
  pOsArgv : List (Option CharPtr)
  mainArgCtl : CMainArgCtl

/-- Pointers to strings that are packed from `p` on. -/
def charPtrs (region : Region) (p : ℕ) (ss : List (List Byte)) : List CharPtr :=
  (places p ss).map fun i => ⟨region, i⟩

def strlenAt (size : ℕ) (mem : Region → Memory Byte) (p : CharPtr) :
    (Region → Memory Byte) × ℕ :=
  let (m, n) := strlen size (mem p.region) p.offset
  (Function.update mem p.region m, n)

/-- The loop that adds up how much memory strings need. -/
def needMemSize (size : ℕ) (mem : Region → Memory Byte) (n : BitVec 64) :
    List CharPtr → (Region → Memory Byte) × BitVec 64
  | [] => (mem, n)
  | p :: ps =>
    let (mem, len) := strlenAt size mem p
    needMemSize size mem (n + (BitVec.ofNat 64 len + 1)) ps

/-- The loop that moves the strings of `environ` to `pTmp`. -/
def moveEnv (size : ℕ) (mem : Region → Memory Byte) (pTmp : CharPtr) :
    List CharPtr → (Region → Memory Byte) × List CharPtr
  | [] => (mem, [])
  | p :: ps =>
    let (mem, len) := strlenAt size mem p
    let text := textAt size (mem p.region) p.offset
    let mem := Function.update mem pTmp.region ((mem pTmp.region).strcpy pTmp.offset text)
    let (mem, ps) := moveEnv size mem ⟨pTmp.region, pTmp.offset + (len + 1)⟩ ps
    (mem, pTmp :: ps)

namespace ArgState

/-- `CMainArgCtl::Init`. `newChar` is what `new char[]` finds in the memory it is asked for, unless
it throws; the strings end within `size` cells. -/
def init (s : ArgState) (size : ℕ) (newChar : ℕ → Option (ℕ → Byte)) (argv : List CharPtr) :
    Option ArgState :=
  let (mem, argvNeedMemSize) := needMemSize size s.mem s.mainArgCtl.argvNeedMemSize argv
  let (mem, envNeedMemSize) := needMemSize size mem s.mainArgCtl.envNeedMemSize s.environ
  (newChar envNeedMemSize.toNat).map fun contents =>
    let envMem := storeAll ⟨contents, []⟩ 0 (List.replicate envNeedMemSize.toNat 0)
    let (mem, environ) := moveEnv size (Function.update mem .envMem envMem) ⟨.envMem, 0⟩ s.environ
    { mem := mem
      environ := environ
      pOsArgv := argv.map some ++ [none]
      mainArgCtl := ⟨some ⟨.envMem, 0⟩, argvNeedMemSize, envNeedMemSize,
        BitVec.ofNat 32 argv.length⟩ }

/-- `SetProcTitle`, and whether it succeeds. There is no result when it writes through a null
pointer. -/
def setProcTitle (s : ArgState) (pTitle : CText) : Option (ArgState × Bool) :=
  let titleLen := BitVec.ofNat 32 pTitle.text.length
  let totalLen :=
    (s.mainArgCtl.argvNeedMemSize + s.mainArgCtl.envNeedMemSize).setWidth 32
  if totalLen ≤ titleLen then some (s, false)
  else
    let pOsArgv := s.pOsArgv.set 1 none
    match pOsArgv.head? with
    | some (some ptmp) =>
      let m := (s.mem ptmp.region).strcpy ptmp.offset pTitle.text
      let more := (totalLen - titleLen).toNat
      let m := m.storeAll (ptmp.offset + titleLen.toNat) (List.replicate more 0)
      some ({ s with mem := Function.update s.mem ptmp.region m, pOsArgv := pOsArgv }, true)
    | _ => none

end ArgState

/-! ### The start of the process -/

/-- The strings of `argv` and of `environ`, and what is in memory behind them. -/
structure ProcStart where
  argv : List CText
  environ : List CText
  behind : ℕ → Byte

namespace ProcStart

def argvText (start : ProcStart) : List (List Byte) := start.argv.map CText.text

def environText (start : ProcStart) : List (List Byte) := start.environ.map CText.text

def totalSize (start : ProcStart) : ℕ := packedSize (start.argvText ++ start.environText)

/-- The strings of `argv`, then those of `environ`, without gaps. -/
def block (start : ProcStart) : Memory Byte :=
  ⟨fun i => (packedImage (start.argvText ++ start.environText))[i]?.getD (start.behind i), []⟩

def argvPtrs (start : ProcStart) : List CharPtr := charPtrs .block 0 start.argvText

def environPtrs (start : ProcStart) : List CharPtr :=
  charPtrs .block (packedSize start.argvText) start.environText

/-- The process after `new CMainArgCtl()`, which leaves the members as the memory was. -/
def state (start : ProcStart) (members : CMainArgCtl) : ArgState where
  mem
    | .block => start.block
    | .envMem => ⟨fun _ => 0, []⟩
  environ := start.environPtrs
  pOsArgv := []
  mainArgCtl := members

def init (start : ProcStart) (members : CMainArgCtl) (newChar : ℕ → Option (ℕ → Byte)) :
    Option ArgState :=
  (start.state members).init start.totalSize newChar start.argvPtrs

end ProcStart
end XiaoHGServer
