import XiaoHGServer.Model.Comm

/-!
# Message buffers and their allocator

A message buffer is a `MSG_HEADER_T` followed by the bytes of a packet.
`AllocMemory` numbers the buffers it returns, so that a pointer names one
allocation and never a later one at the same address; the bytes of a buffer that
is not cleared are whatever `stale` says was left there. `FreeMemory` keeps the
history of its calls in `released`: a buffer occurs in it as often as it has been
handed to `delete []`. A second `delete []`, which C++ leaves undefined, changes
nothing else here, and runs go on after it.
-/

namespace XiaoHGServer

/-- A connection object, numbered in the order of `m_ConnectionList`. -/
abbrev ConnId := ℕ

abbrev BufId := ℕ

/-- `MSG_HEADER_T`: the connection and its serial number at the time of stamping. -/
structure MsgHeader where
  pConn : ConnId
  currSequence : ℕ
  deriving DecidableEq, Repr

structure MsgBuffer where
  header : MsgHeader
  pkg : List Byte
  deriving DecidableEq, Repr

structure Heap where
  next : BufId
  buffer : BufId → MsgBuffer
  /-- What the memory of a buffer holds before it is written. -/
  stale : BufId → ℕ → Byte
  /-- The arguments of all `FreeMemory` calls so far, newest first. -/
  released : List BufId

namespace Heap

def empty (stale : BufId → ℕ → Byte) : Heap :=
  ⟨0, fun _ => ⟨⟨0, 0⟩, []⟩, stale, []⟩

/-- `AllocMemory(g_LenMsgHeader + len, false)`; the new buffer is number `next`. -/
def allocMemory (h : Heap) (len : ℕ) : Heap :=
  { h with
    next := h.next + 1
    buffer := Function.update h.buffer h.next ⟨⟨0, 0⟩, (List.range len).map (h.stale h.next)⟩ }

/-- `FreeMemory`, which ignores a null pointer. -/
def freeMemory (h : Heap) (p : Option BufId) : Heap :=
  match p with
  | none => h
  | some b => { h with released := b :: h.released }

def modify (h : Heap) (b : BufId) (f : MsgBuffer → MsgBuffer) : Heap :=
  { h with buffer := Function.update h.buffer b (f (h.buffer b)) }

@[simp] theorem allocMemory_next (h : Heap) (len : ℕ) : (h.allocMemory len).next = h.next + 1 := rfl

@[simp] theorem allocMemory_released (h : Heap) (len : ℕ) :
    (h.allocMemory len).released = h.released := rfl

@[simp] theorem allocMemory_stale (h : Heap) (len : ℕ) : (h.allocMemory len).stale = h.stale := rfl

@[simp] theorem allocMemory_buffer_ne (h : Heap) (len : ℕ) {b : BufId} (hb : b ≠ h.next) :
    (h.allocMemory len).buffer b = h.buffer b := by
  simp [allocMemory, hb]

@[simp] theorem allocMemory_buffer_next (h : Heap) (len : ℕ) :
    (h.allocMemory len).buffer h.next =
      ⟨⟨0, 0⟩, (List.range len).map (h.stale h.next)⟩ := by
  simp [allocMemory]

@[simp] theorem freeMemory_next (h : Heap) (p : Option BufId) : (h.freeMemory p).next = h.next := by
  cases p <;> rfl

@[simp] theorem freeMemory_buffer (h : Heap) (p : Option BufId) :
    (h.freeMemory p).buffer = h.buffer := by
  cases p <;> rfl

@[simp] theorem freeMemory_stale (h : Heap) (p : Option BufId) :
    (h.freeMemory p).stale = h.stale := by
  cases p <;> rfl

@[simp] theorem freeMemory_none (h : Heap) : h.freeMemory none = h := rfl

@[simp] theorem freeMemory_some_released (h : Heap) (b : BufId) :
    (h.freeMemory (some b)).released = b :: h.released := rfl

@[simp] theorem modify_next (h : Heap) (b : BufId) (f : MsgBuffer → MsgBuffer) :
    (h.modify b f).next = h.next := rfl

@[simp] theorem modify_released (h : Heap) (b : BufId) (f : MsgBuffer → MsgBuffer) :
    (h.modify b f).released = h.released := rfl

@[simp] theorem modify_stale (h : Heap) (b : BufId) (f : MsgBuffer → MsgBuffer) :
    (h.modify b f).stale = h.stale := rfl

@[simp] theorem modify_buffer_self (h : Heap) (b : BufId) (f : MsgBuffer → MsgBuffer) :
    (h.modify b f).buffer b = f (h.buffer b) := by
  simp [modify]

@[simp] theorem modify_buffer_ne (h : Heap) {b c : BufId} (f : MsgBuffer → MsgBuffer)
    (hc : c ≠ b) : (h.modify b f).buffer c = h.buffer c := by
  simp [modify, hc]

end Heap
end XiaoHGServer
