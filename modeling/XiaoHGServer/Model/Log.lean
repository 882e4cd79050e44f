import Mathlib.Data.Nat.Digits.Lemmas
import XiaoHGServer.Library.CString
import XiaoHGServer.Model.Comm

/-!
# The log

`CLog` formats every line into one buffer, with a running length that is a
`uint16_t`. The buffer is a memory of which the first `MAX_LOG_STRLEN` cells were
allocated. What the formats of the callers produce is given as text.
-/

namespace XiaoHGServer

open Memory

def maxLogStrLen : ℕ := 2048
def basicLogStrLen : ℕ := 512

/-- A string argument: its bytes up to the terminating zero. -/
structure CText where
  text : List Byte
  nonzero : ∀ c ∈ text, c ≠ 0

inductive LogLevel
  | stderr
  | emerg
  | alert
  | crit
  | err
  | warn
  | notice
  | info
  | debug
  | track
  deriving DecidableEq, Repr

def LogLevel.toInt : LogLevel → ℤ
  | stderr => 0
  | emerg => 1
  | alert => 2
  | crit => 3
  | err => 4
  | warn => 5
  | notice => 6
  | info => 7
  | debug => 8
  | track => 9

def ascii (s : String) : List Byte := s.toList.map fun c => BitVec.ofNat 8 c.toNat

def errLevel : LogLevel → List Byte
  | .stderr => ascii "stderr"
  | .emerg => ascii "emerg"
  | .alert => ascii "alert"
  | .crit => ascii "serious"
  | .err => ascii "error"
  | .warn => ascii "warn"
  | .notice => ascii "notice"
  | .info => ascii "info"
  | .debug => ascii "debug"
  | .track => ascii "track"

/-! ### Conversions -/

def digitsText (n : ℕ) : List Byte :=
  if n = 0 then [48] else (Nat.digits 10 n).reverse.map fun d => BitVec.ofNat 8 (48 + d)

/-- `%d` with a minimal width, which is filled up with `fill`; a sign stands before zeros and
behind blanks. -/
def formatInt (width : ℕ) (fill : Byte) (v : BitVec 32) : List Byte :=
  let sign : List Byte := if v.toInt < 0 then [45] else []
  let digits := digitsText v.toInt.natAbs
  let padding := List.replicate (width - (sign.length + digits.length)) fill
  if fill = 48 then sign ++ padding ++ digits else padding ++ sign ++ digits

def formatD (v : BitVec 32) : List Byte := formatInt 0 32 v

structure Tm where
  tmYear : BitVec 32
  tmMon : BitVec 32
  tmMday : BitVec 32
  tmHour : BitVec 32
  tmMin : BitVec 32
  tmSec : BitVec 32

structure LogEnv where
  localtime : Tm
  getpid : BitVec 32
  strerror : BitVec 32 → CText

def LogEnv.basicText (env : LogEnv) : List Byte :=
  let tm := env.localtime
  formatInt 4 32 (tm.tmYear + 1900) ++ ascii "/" ++ formatInt 2 48 (tm.tmMon + 1) ++ ascii "/" ++
    formatInt 2 48 tm.tmMday ++ ascii " " ++ formatInt 2 48 tm.tmHour ++ ascii ":" ++
    formatInt 2 48 tm.tmMin ++ ascii ":" ++ formatInt 2 48 tm.tmSec ++ ascii " [XiaoHG][pid:" ++
    formatD env.getpid ++ ascii "]"

/-! ### The buffer -/

/-- `snprintf(buf, size, ...)` of a text: `size - 1` characters at most, and a zero. -/
def snprintf (m : Memory Byte) (buf size : ℕ) (text : List Byte) : Memory Byte :=
  if size = 0 then m else m.storeAll buf (text.take (size - 1) ++ [0])

/-- A call of `snprintf` or `vsnprintf`: where it writes to, the size it is given before the
conversion to `size_t`, its untruncated text, and `m_LogStrLen` after it. -/
structure FormatCall where
  offset : ℕ
  size : ℤ
  text : List Byte
  logStrLen : ℕ

def FormatCall.stored (f : FormatCall) : ℕ := min f.text.length (intToU64 f.size - 1)

/-- The members of `CLog`, with the histories of the calls that format and of those that write. -/
structure CLog where
  logLevel : ℤ
  logFd : ℤ
  pLogBuff : Memory Byte
  logStrPoint : ℕ
  logStrLen : ℕ
  formats : List FormatCall
  written : List (ℤ × List Byte)

namespace CLog

/-- `m_LogStrPoint = snprintf(m_pLogBuff + m_LogStrLen, size, ...)` and
`m_LogStrLen += m_LogStrPoint`. -/
def format (s : CLog) (size : ℤ) (text : List Byte) : CLog :=
  let logStrPoint := u16 text.length
  let logStrLen := u16 (s.logStrLen + logStrPoint)
  { s with
    pLogBuff := snprintf s.pLogBuff s.logStrLen (intToU64 size) text
    logStrPoint := logStrPoint
    logStrLen := logStrLen
    formats := s.formats ++ [⟨s.logStrLen, size, text, logStrLen⟩] }

def clear (s : CLog) : CLog :=
  { s with
    pLogBuff := s.pLogBuff.storeAll 0 (List.replicate maxLogStrLen 0)
    logStrLen := 0
    logStrPoint := 0 }

def logBasicStr (s : CLog) (env : LogEnv) (logLevel : ℤ) : CLog × Bool :=
  let s := s.clear
  if s.logFd = -1 then (s, false)
  else if s.logLevel < logLevel then (s, false)
  else (s.format basicLogStrLen env.basicText, true)

/-- The newline at the end of the string in the buffer, and `write`. The string ends within `size`
cells. -/
def putLine (s : CLog) (size : ℕ) (stdFlag : ℤ) : CLog :=
  let (m, n) := strlen size s.pLogBuff 0
  let m := m.store n 10
  let fd := if stdFlag = 2 then 2 else s.logFd
  { s with
    pLogBuff := m
    written := s.written ++ [(fd, (List.range (s.logStrLen + 1)).map m.cell)] }

/-- `WriteLog`, where `text` is what `fmt` and its arguments give. -/
def writeLog (s : CLog) (text : List Byte) (stdFlag : ℤ) : CLog :=
  (s.format (maxLogStrLen - s.logStrLen) text).putLine (2 ^ 16 + text.length + maxLogStrLen)
    stdFlag

/-- What the overloads of `Log` have in common: the level is checked, `tag` follows the date, and
`text` is the message. -/
def logTagged (s : CLog) (env : LogEnv) (logLevel : ℤ) (tag text : List Byte) (stdFlag : ℤ) :
    CLog :=
  match s.logBasicStr env logLevel with
  | (s, false) => s
  | (s, true) => (s.format (basicLogStrLen - s.logStrLen) tag).writeLog text stdFlag

end CLog

inductive LogCall
  /-- `Log(fmt, ...)`. -/
  | std (text : List Byte)
  /-- `Log(logLevel, fmt, ...)`. -/
  | level (logLevel : LogLevel) (text : List Byte)
  /-- `Log(logLevel, errNo, fmt, ...)`. -/
  | errNo (logLevel : LogLevel) (errNo : BitVec 32) (text : List Byte)
  /-- `Log(logLevel, pFileName, lineNo, fmt, ...)`. -/
  | file (logLevel : LogLevel) (pFileName : CText) (lineNo : BitVec 32) (text : List Byte)
  /-- `Log(logLevel, errNo, pFileName, lineNo, fmt, ...)`. -/
  | errNoFile (logLevel : LogLevel) (errNo : BitVec 32) (pFileName : CText) (lineNo : BitVec 32)
      (text : List Byte)

namespace LogCall

def tag (env : LogEnv) : LogCall → List Byte
  | std _ => ascii "[std] "
  | level l _ => ascii "[" ++ errLevel l ++ ascii "] "
  | errNo l e _ => ascii "[" ++ errLevel l ++ ascii "][errno:" ++ formatD e ++ ascii ", " ++
      (env.strerror e).text ++ ascii "] "
  | file l pFileName lineNo _ => ascii "[" ++ errLevel l ++ ascii "][" ++ pFileName.text ++
      ascii ": " ++ formatD lineNo ++ ascii "] "
  | errNoFile l e pFileName lineNo _ => ascii "[" ++ errLevel l ++ ascii "][" ++
      pFileName.text ++ ascii ": " ++ formatD lineNo ++ ascii "][errno:" ++ formatD e ++
      ascii ", " ++ (env.strerror e).text ++ ascii "] "

def text : LogCall → List Byte
  | std t => t
  | level _ t => t
  | errNo _ _ t => t
  | file _ _ _ t => t
  | errNoFile _ _ _ _ t => t

/-- The level that is checked; without an argument it is that of `LOG_LEVEL_TRACK`. -/
def logLevel : LogCall → ℤ
  | std _ => LogLevel.track.toInt
  | level l _ => l.toInt
  | errNo l _ _ => l.toInt
  | file l _ _ _ => l.toInt
  | errNoFile l _ _ _ _ => l.toInt

/-- `STDERR_FILENO` for the overload without a level. -/
def stdFlag : LogCall → ℤ
  | std _ => 2
  | _ => 0

def log (s : CLog) (env : LogEnv) (call : LogCall) : CLog :=
  s.logTagged env call.logLevel (call.tag env) call.text call.stdFlag

end LogCall
end XiaoHGServer
