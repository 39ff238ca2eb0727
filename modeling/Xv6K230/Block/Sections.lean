import Xv6K230.Block.Cache

/-! # What each section of the cache does

For every section the states it can lead to, so that proofs about processes never look
into the code again.
-/

namespace Xv6K230.Blk

open Prog

open Fs (Block)

section

variable {s t : Blocks} {me : Nat} {b : Bi}

@[simp] lemma setBuf_same (s : Blocks) (b : Bi) (v : Buf) : (s.setBuf b v).buf b = v := if_pos rfl

lemma setBuf_of_ne (s : Blocks) {b c : Bi} (v : Buf) (h : c ≠ b) : (s.setBuf b v).buf c = s.buf c := if_neg h

lemma modBuf_ok {f : Buf → Buf} (h : modBuf b f s = .ok ((), t)) : t = s.setBuf b (f (s.buf b)) := by
  cases h
  rfl

def Listed (s : Blocks) : Prop := ∃ L, L.Perm (List.finRange nbuf) ∧ s.links.Ring L

lemma Listed.find {L : List Bi} (hL : L.Perm (List.finRange nbuf)) {p : Bi → Bool} :
    (∀ b, L.find? p = some b → p b = true) ∧ (L.find? p = none → ∀ b, p b = false) := by
  constructor
  · exact fun b hb => List.find?_some hb
  · grind

lemma bget_cases {dev n : Nat} (hs : Listed s) (h : bget dev n s = .ok (b, t)) :
    (s.buf b).dev = dev ∧ (s.buf b).blockno = n ∧
      t = s.setBuf b { s.buf b with refcnt := (s.buf b).refcnt + 1 } ∨
    (∀ c, ¬ ((s.buf c).dev = dev ∧ (s.buf c).blockno = n)) ∧ (s.buf b).refcnt = 0 ∧
      t = s.setBuf b { s.buf b with dev := dev, blockno := n, valid := false, refcnt := 1 } := by
  obtain ⟨L, hPerm, hRing⟩ := hs
  have hFuel : L.length < nbuf + 1 := by
    rw [hPerm.length_eq, List.length_finRange]
    exact Nat.lt_succ_self nbuf
  apply wp_returns h
  simp only [bget, wp_bind, wp_read, id_eq]
  rw [hRing.walk_next _ hFuel]
  cases hFind : L.find? fun b => (s.buf b).dev == dev && (s.buf b).blockno == n with
  | some c =>
    have hc := (Listed.find hPerm).1 c hFind
    simp only [Bool.and_eq_true, beq_iff_eq] at hc
    simp only [modBuf, wp_bind, wp_update, wp_pure]
    exact .inl ⟨hc.1, hc.2, trivial⟩
  | none =>
    have hNot := (Listed.find hPerm).2 hFind
    dsimp only
    rw [hRing.walk_prev _ hFuel]
    cases hFree : L.reverse.find? fun b => (s.buf b).refcnt == 0 with
    | none =>
      dsimp only
      rw [wp_stop]
      trivial
    | some c =>
      simp only [modBuf, wp_bind, wp_update, wp_pure]
      refine .inr ⟨fun d hd => ?_, by simpa using List.find?_some hFree, trivial⟩
      have hd' := hNot d
      rw [hd.1, hd.2] at hd'
      simp at hd'

lemma acquiresleep_cases (h : acquiresleep me b s = .ok ((), t)) :
    (s.buf b).lock = none ∧ t = s.setBuf b { s.buf b with lock := some me } := by
  apply wp_done h
  simp only [acquiresleep, getBuf, wp_bind, wp_read]
  split
  · rw [wp_stop]
    trivial
  · rename_i hFree
    simp only [modBuf, wp_update]
    exact ⟨by simpa using hFree, trivial⟩

lemma ramdiskRw_cases {write : Bool} (h : ramdiskRw me b write s = .ok ((), t)) :
    (s.buf b).lock = some me ∧
    t = if write then
        { s with disk := fun n => if n = ramdiskIndex (s.buf b).blockno then (s.buf b).data else s.disk n }
      else s.setBuf b { s.buf b with data := s.disk (ramdiskIndex (s.buf b).blockno), valid := true } := by
  apply wp_done h
  simp only [ramdiskRw, getBuf, wp_bind, wp_read, id_eq]
  split
  · rw [wp_stop]
    trivial
  · rename_i hLock
    split
    · rw [wp_stop]
      trivial
    · cases write with
      | true =>
        simp only [if_true, wp_update]
        exact ⟨not_not.mp hLock, trivial⟩
      | false =>
        simp only [Bool.false_eq_true, if_false, modBuf, wp_update]
        exact ⟨not_not.mp hLock, trivial⟩

lemma fill_cases (h : fill me b s = .ok ((), t)) :
    (s.buf b).valid = true ∧ t = s ∨
    (s.buf b).valid = false ∧
      t = s.setBuf b { s.buf b with data := s.disk (ramdiskIndex (s.buf b).blockno), valid := true } := by
  cases hValid : (s.buf b).valid with
  | true =>
    refine .inl ⟨rfl, ?_⟩
    simp only [fill, getBuf, Prog.read, bind, Prog.seq, hValid] at h
    cases h
    rfl
  | false =>
    refine .inr ⟨rfl, ?_⟩
    have hRw : ramdiskRw me b false s = .ok ((), t) := by
      simpa [fill, getBuf, Prog.read, bind, Prog.seq, hValid] using h
    exact (ramdiskRw_cases hRw).2

lemma bwrite_cases (h : bwrite me b s = .ok ((), t)) :
    t = { s with disk := fun n => if n = ramdiskIndex (s.buf b).blockno then (s.buf b).data else s.disk n } := by
  apply wp_done h
  simp only [bwrite, getBuf, wp_bind, wp_read]
  split
  · rw [wp_stop]
    trivial
  · cases hRw : ramdiskRw me b true s with
    | error e =>
      rw [Prog.wp, hRw]
      trivial
    | ok r =>
      rw [Prog.wp, hRw]
      exact (ramdiskRw_cases hRw).2

lemma brelseLock_cases (h : brelseLock me b s = .ok ((), t)) :
    t = s.setBuf b { s.buf b with lock := none } := by
  apply wp_done h
  simp only [brelseLock, releasesleep, getBuf, wp_bind, wp_read]
  split
  · rw [wp_stop]
    trivial
  · simp only [modBuf, wp_update]

lemma bput_cases (h : bput b s = .ok ((), t)) :
    ∃ links, (links = s.links ∨ links = (s.links.unlink b).insertFront b) ∧
      t = { s.setBuf b { s.buf b with refcnt := (s.buf b).refcnt - 1 } with links := links } := by
  apply wp_done h
  simp only [bput, modBuf, getBuf, wp_bind, wp_update, wp_read]
  split
  · rw [wp_update]
    exact ⟨_, .inr rfl, rfl⟩
  · rw [wp_pure]
    exact ⟨_, .inl rfl, rfl⟩

lemma Listed.bput (hs : Listed s) (h : bput b s = .ok ((), t)) : Listed t := by
  obtain ⟨L, hPerm, hRing⟩ := hs
  obtain ⟨links, hLinks | hLinks, rfl⟩ := bput_cases h
  · subst hLinks
    exact ⟨L, hPerm, hRing⟩
  · subst hLinks
    obtain ⟨A, B, rfl⟩ := List.append_of_mem (hPerm.mem_iff.mpr (List.mem_finRange b))
    have hMid : (A ++ b :: B).Perm (b :: (A ++ B)) := List.perm_middle
    have hNotIn : b ∉ A ++ B := by
      have hNodup := (hMid.nodup_iff).mp hRing.nodup
      exact (List.nodup_cons.mp hNodup).1
    exact ⟨b :: (A ++ B), hMid.symm.trans hPerm, hRing.unlink.insertFront hNotIn⟩

lemma logWriteBuf_cases (h : logWriteBuf b s = .ok ((), t)) :
    1 ≤ s.log.outstanding ∧
    ((s.buf b).blockno ∈ s.log.lh ∧ t = s ∨
     (s.buf b).blockno ∉ s.log.lh ∧ t = { s.setBuf b { s.buf b with refcnt := (s.buf b).refcnt + 1 } with
       log := { s.log with lh := s.log.lh ++ [(s.buf b).blockno] } }) := by
  apply wp_done h
  simp only [logWriteBuf, getBuf, onLog, wp_bind, wp_read, wp_zoom]
  cases hWrite : logWrite (s.buf b).blockno s.log with
  | error e =>
    rw [Prog.wp, hWrite]
    trivial
  | ok r =>
    obtain ⟨new, log⟩ := r
    rw [Prog.wp, hWrite]
    obtain ⟨-, hOpen, ⟨rfl, hIn, rfl⟩ | ⟨rfl, hNew, rfl⟩⟩ := logWrite_cases hWrite
    · simp only [Bool.false_eq_true, if_false, wp_pure]
      exact ⟨hOpen, .inl ⟨hIn, trivial⟩⟩
    · simp only [if_true, bpin, modBuf, wp_update]
      exact ⟨hOpen, .inr ⟨hNew, rfl⟩⟩

lemma onLog_ok {α : Type} {m : Prog Stop Log α} {a : α} (h : onLog m s = .ok (a, t)) :
    m s.log = .ok (a, t.log) ∧ t = { s with log := t.log } := by
  simp only [onLog, Prog.zoom] at h
  split at h
  · rename_i hm
    cases h
    exact ⟨hm, rfl⟩
  · cases h

lemma ramdiskIndex_of_lt {n : Nat} (h : n < 2 ^ 22) : ramdiskIndex n = n := by
  unfold ramdiskIndex
  omega

end

end Xv6K230.Blk
