import XiaoHGServer.Model.Steps

/-!
# Packets to be discarded

`RecvMsgHandleProc` calls `exit(0)` at the places where its comments throw the
packet away. A run therefore keeps serving exactly as long as no worker is given
such a packet, and as long as the semaphore of the send list is not at its
maximum when a reply is pushed.
-/

namespace XiaoHGServer
namespace Server

variable {s t : Server} {b : BufId} {now : ℤ} {i : ℕ} {e : Event} {es : List Event}
  {o : Outcome Server Event}

inductive Rejected (s : Server) (b : BufId) : Prop
  | headerCrc : pkgLength (s.recvPkg b) = lenPkgHeader → iCrc32 (s.recvPkg b) ≠ 0 → Rejected s b
  | bodyCrc : pkgLength (s.recvPkg b) ≠ lenPkgHeader →
      getCRC (pkgBody (s.recvPkg b)) ≠ ntohl (iCrc32 (s.recvPkg b)) → Rejected s b
  | closed : (s.conn (s.recvHeader b).pConn).currSequence ≠ (s.recvHeader b).currSequence →
      Rejected s b
  | unknownCode : totalCommands ≤ msgCode (s.recvPkg b) → Rejected s b
  | noHandler : statusHandler.getD (msgCode (s.recvPkg b)) none = none → Rejected s b

theorem dispatch_eq_none_iff {hasBody : Bool} {code n : ℕ} :
    s.dispatch b hasBody code n now = none ↔
      (s.conn (s.recvHeader b).pConn).currSequence ≠ (s.recvHeader b).currSequence ∨
        totalCommands ≤ code ∨ statusHandler.getD code none = none := by
  unfold dispatch
  dsimp only
  split_ifs with hseq hcode
  · simp [hseq]
  · simp [hcode]
  · cases hh : statusHandler.getD code none with
    | none => simp
    | some handler => simp [not_not.mp hseq, hcode]

/-- `RecvMsgHandleProc` ends the process exactly where it should throw the packet away. -/
theorem recvMsgHandleProc_eq_none_iff : s.recvMsgHandleProc b now = none ↔ s.Rejected b := by
  have hdispatch (h : (s.conn (s.recvHeader b).pConn).currSequence ≠
      (s.recvHeader b).currSequence ∨ totalCommands ≤ msgCode (s.recvPkg b) ∨
      statusHandler.getD (msgCode (s.recvPkg b)) none = none) : s.Rejected b := by
    rcases h with h | h | h
    exacts [.closed h, .unknownCode h, .noHandler h]
  unfold recvMsgHandleProc
  dsimp only
  split_ifs with hlen hcrc hcrc
  · exact ⟨fun _ => .headerCrc hlen.symm hcrc, fun _ => rfl⟩
  · rw [dispatch_eq_none_iff]
    refine ⟨hdispatch, fun h => ?_⟩
    cases h with
    | headerCrc _ h => exact absurd h hcrc
    | bodyCrc h => exact absurd hlen.symm h
    | closed h => exact Or.inl h
    | unknownCode h => exact Or.inr (Or.inl h)
    | noHandler h => exact Or.inr (Or.inr h)
  · exact ⟨fun _ => .bodyCrc (Ne.symm hlen) hcrc, fun _ => rfl⟩
  · have hhead : (s.writeRecvMsg b 4 (storeInt (ntohl (iCrc32 (s.recvPkg b))))).recvHeader b =
        s.recvHeader b := sameCustody_writeRecvMsg.header b
    rw [dispatch_eq_none_iff, hhead]
    refine ⟨hdispatch, fun h => ?_⟩
    cases h with
    | headerCrc h => exact absurd h.symm hlen
    | bodyCrc _ h => exact absurd h hcrc
    | closed h => exact Or.inl h
    | unknownCode h => exact Or.inr (Or.inl h)
    | noHandler h => exact Or.inr (Or.inr h)

theorem workerHandle_eq_none_iff :
    s.workerHandle i now = none ↔ ∃ w, s.workers[i]? = some w ∧ s.Rejected w.pJobBuf := by
  unfold workerHandle
  cases hw : s.workers[i]? with
  | none => simp
  | some w =>
    have hrej : s.recvMsgHandleProc w.pJobBuf now = none ↔ _ := recvMsgHandleProc_eq_none_iff
    simp only [Option.some.injEq, exists_eq_left', ← hrej]
    cases hr : s.recvMsgHandleProc w.pJobBuf now with
    | none => simp
    | some p =>
      obtain ⟨t, r⟩ := p
      cases r <;> simp

end Server
end XiaoHGServer
