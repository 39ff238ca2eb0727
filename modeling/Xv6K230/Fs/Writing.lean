import Xv6K230.Fs.Budget
import Xv6K230.Fs.Check
import Xv6K230.Fs.Table
import Xv6K230.Fs.Transfer

/-! # What a write leaves in a file

`writei` stores a first part of its source.
-/

namespace Xv6K230.Fs

open Prog

variable {s t : FsState} {ip : Ip} {i off n : Nat} {src : CopyIn}

/-! ## Panics -/

def OfLog (e : Stop) : Prop := e = .logTooBig ∨ e = .logOutside

lemma log_logWrite (b : Nat) : Within OfLog (logWrite b) :=
  .bind (.read _) fun _ => .ite (.stop (.inl rfl)) (.ite (.stop (.inr rfl)) (.ite (.pure _) (.update _)))

lemma log_ballocIn (sb : Superblock) (b : Nat) : Within OfLog (ballocIn sb b) := by
  refine .bind (.read _) fun bp => ?_
  cases firstFree bp (min bpb (sb.size - b)) with
  | none => exact .pure _
  | some bi =>
    exact .bind (.update _) fun _ => .bind (log_logWrite _) fun _ => .bind (.bind (.update _) fun _ => log_logWrite _) fun _ => .pure _

lemma log_balloc : Within OfLog balloc :=
  .bind (.read _) fun _ => .bind (.firstM fun _ => log_ballocIn _ _) fun _ => .pure _

lemma log_modDi (ip : Ip) (f : Dinode → Dinode) : Within OfLog (modDi ip f) := .update _

lemma log_indirectBlock (ip : Ip) : Within OfLog (indirectBlock ip) :=
  .bind (.read _) fun _ => .ite (.pure _) (.bind log_balloc fun _ => .ite (.pure _) (.bind (log_modDi ip _) fun _ => .pure _))

lemma log_bmap (ip : Ip) {bn : Nat} (hbn : bn < 268) : Within OfLog (bmap ip bn) := by
  have hRange : ¬ bn < ndirect → bn - ndirect < nindirect := by
    unfold ndirect nindirect
    omega
  refine .bind (.read _) fun _ => ?_
  split
  · exact .ite (.pure _) (.bind log_balloc fun _ => .ite (.pure _) (.bind (log_modDi ip _) fun _ => .pure _))
  · rename_i hHigh
    rw [if_pos (hRange hHigh)]
    refine .bind (log_indirectBlock ip) fun ind => .ite (.pure _) (.bind (.read _) fun bp => .ite (.pure _) ?_)
    exact .bind log_balloc fun _ => .ite (.bind (.update _) fun _ => .bind (log_logWrite _) fun _ => .pure _) (.pure _)

lemma log_writeiLoop (ip : Ip) (src : CopyIn) (n : Nat) : ∀ fuel tot off, off + (n - tot) ≤ 268 * 1024 →
    Within OfLog (writeiLoop ip src n fuel tot off) := by
  intro fuel
  induction fuel with
  | zero => exact fun _ _ _ => .pure _
  | succ fuel ih =>
    intro tot off hMax
    unfold writeiLoop
    split
    · refine .bind (log_bmap ip (by unfold bsize; omega)) fun addr => .ite (.pure _) (.bind (.update _) fun _ => .ite ?_ (.pure _))
      exact .bind (log_logWrite _) fun _ => ih _ _ (by omega)
    · exact .pure _

lemma log_iupdate (ip : Ip) : Within OfLog (iupdate ip) :=
  .bind (.read _) fun _ => .bind (.read _) fun _ => .bind (.update _) fun _ => log_logWrite _

lemma log_writei (ip : Ip) (src : CopyIn) (off n : Nat) : Within OfLog (writei ip src off n) := by
  refine .bind (.read _) fun _ => .ite (.pure _) ?_
  split
  · exact .pure _
  · rename_i hMax
    unfold maxfile ndirect nindirect bsize at hMax
    exact .bind (log_writeiLoop ip src n n 0 off (by omega)) fun _ => .bind (log_modDi ip _) fun _ =>
      .bind (log_iupdate ip) fun _ => .pure _

/-- The operation in progress has room in the log for every block that a write of `n` bytes may log. -/
structure LogRoom (s : FsState) (off n : Nat) : Prop where
  nodup : s.lh.Nodup
  inside : 1 ≤ s.outstanding
  room : s.lh.length + (s.sb.size / bpb + 1) + 1 + 2 * spanned off n < logblocks

lemma writei_stops (ip : Ip) (src : CopyIn) (off n : Nat) (s : FsState) :
    wp (writei ip src off n) (fun e => OfLog e ∧ ¬ LogRoom s off n) (fun _ _ => True) s := by
  by_cases hRoom : LogRoom s off n
  · obtain ⟨K, hK⟩ : ∃ K, K = s.lh ++ (List.range (s.sb.size / bpb + 1)).map (· + s.sb.bmapstart) ++ [s.sb.iblock (s.itable ip).inum] := ⟨_, rfl⟩
    have hBudget : Budget K s := ⟨hRoom.nodup, fun b hb => by simp [hK, hb], hRoom.inside⟩
    have hMap : ∀ c < s.sb.size, s.sb.bblock c ∈ K := by
      intro c hc
      have hIn : s.sb.bblock c ∈ (List.range (s.sb.size / bpb + 1)).map (· + s.sb.bmapstart) :=
        List.mem_map.mpr ⟨c / bpb, List.mem_range.mpr (Nat.lt_succ_of_le (Nat.div_le_div_right hc.le)), rfl⟩
      rw [hK]
      exact List.mem_append_left _ (List.mem_append_right _ hIn)
    have hCap : K.length + 2 * spanned off n < logblocks := by
      grind [hRoom.room]
    apply wp_mono (wp_both (log_writei ip src off n s) (writei_log hBudget hMap (by simp [hK]) hCap src))
    · rintro e ⟨rfl | rfl, hBig, hOutside⟩
      · exact absurd rfl hBig
      · exact absurd rfl hOutside
    · exact fun _ _ _ => trivial
  · exact wp_mono (log_writei ip src off n s) (fun e he => ⟨he, hRoom⟩) fun _ _ h => h

/-! ## What a write does -/

/-- A write that returns `r` and leads from `s` to `t` stores the first `r` bytes of its source in file `i` and changes no
other byte of a file; it is short only if a copy failed or no block is free. -/
def Writes (src : CopyIn) (off n i : Nat) (s t : FsState) (r : Int) : Prop :=
  ∃ tot : Nat, r = tot ∧ tot ≤ n ∧ (t.files i).size = max (s.files i).size (off + tot) ∧
    (∀ byte, Supplies src byte → ∀ k < tot, (t.files i).data (off + k) = byte k) ∧
    (∀ x < (s.files i).size, x < off ∨ off + tot ≤ x → (t.files i).data x = (s.files i).data x) ∧
    (∀ j, j ≠ i → t.files j = s.files j) ∧
    (tot < n → firstFailure src n n 0 off = some tot ∨ t.NoneFree)

/-- The first copy that fails has stored, below the end of the file, a byte that is not there already. -/
def Spoils (src : CopyIn) (off n : Nat) (v : Node) : Prop :=
  ∃ k, firstFailure src n n 0 off = some k ∧ ∃ x, off + k ≤ x ∧ x < off + k + (leftover src n k (off + k)).length ∧
    x < v.size ∧ (leftover src n k (off + k)).getD (x - (off + k)) 0 ≠ v.data x

lemma writes_iff (h : Consistent s) (hip : Loaded s ip i) {tot : Nat} {f : Nat → UInt8}
    (hMoved : Moved src n 0 off (tot, off + tot) (s.files i).data f)
    (hEnds : Ends src n n 0 off s (s.inode i) (tot, off + tot) t (s.files i).data f)
    (hAlters : Alters s t i { s.files i with size := max (s.files i).size (off + tot), data := f }) :
    Writes src off n i s t tot ↔ ¬ Spoils src off n (s.files i) := by
  have hFile := hAlters.file
  have hTot : tot ≤ n := by
    have hHigh : tot ≤ max n 0 := hMoved.high
    omega
  have hBytes : ∀ byte, Supplies src byte → ∀ k < tot, (t.files i).data (off + k) = byte k := by
    intro byte hByte k hk
    rw [hFile]
    exact hMoved.bytes byte hByte k (Nat.zero_le _) hk
  have hShort : tot < n → firstFailure src n n 0 off = some tot ∨ t.NoneFree := by
    intro hlt
    cases hEnds with
    | copy failure bytes => exact .inl failure
    | space short failure slot full bytes => exact .inr full
    | done all failure bytes => exact absurd all (not_le.mpr hlt)
  -- only the bytes below the old end from `off + tot` on are left
  have hRest : Writes src off n i s t tot ↔ ∀ x < (s.files i).size, off + tot ≤ x → f x = (s.files i).data x := by
    constructor
    · rintro ⟨tot', hEq, -, -, -, hSame, -⟩ x hx hLow
      obtain rfl : tot = tot' := Int.ofNat_inj.mp hEq
      have hAt := hSame x hx (.inr hLow)
      rwa [hFile] at hAt
    · intro hSame
      refine ⟨tot, rfl, hTot, by rw [hFile], hBytes, ?_, fun j hj => hAlters.file_of_ne hj, hShort⟩
      intro x hx hOut
      rw [hFile]
      rcases hOut with hLow | hHigh
      · exact hMoved.below x hLow
      · exact hSame x hx hHigh
  rw [hRest]
  cases hEnds with
  | copy failure bytes =>
    have hFirst : firstFailure src n n 0 off = some tot := failure
    constructor
    · rintro hSame ⟨k, hk, x, hLow, hHigh, hSize, hne⟩
      obtain rfl : tot = k := Option.some.inj (hFirst.symm.trans hk)
      apply hne
      rw [← hSame x hSize hLow, bytes x hLow]
      exact (if_pos ⟨hLow, hHigh⟩).symm
    · intro hNot x hx hLow
      rw [bytes x hLow]
      unfold overwrite
      split
      · rename_i hIn
        by_contra hne
        exact hNot ⟨tot, hFirst, x, hIn.1, hIn.2, hx, hne⟩
      · rfl
  | space short failure slot full bytes =>
    refine iff_of_true (fun x _ hLow => bytes x hLow) ?_
    rintro ⟨k, hk, x, hLow, -, hSize, -⟩
    have hLe : tot ≤ k := failure k hk
    have hMapped := (h.full i (h.live hip)).2 ((off + tot) / 1024)
    have hSizeEq : (s.files i).size = (s.inode i).size.toNat := h.size_eq hip
    exact hMapped (by omega) slot
  | done all failure bytes =>
    refine iff_of_true (fun x _ hLow => bytes x hLow) ?_
    rintro ⟨k, hk, -⟩
    have hNone : firstFailure src n n 0 off = none := failure
    rw [hNone] at hk
    cases hk

/-! ## Undoing the copy that failed -/

/-- The source whose copies store nothing when they fail. -/
def wholeCopies (src : CopyIn) (k l : Nat) : Text × Bool := if (src k l).2 then src k l else ([], false)

def Rereads {α : Type} (x y : Except Stop (α × FsState)) : Prop := ∃ b v, y = x.map fun p => (p.1, p.2.setBlock b v)

lemma setBlock_self (s : FsState) (b : Nat) : s.setBlock b (s.disk b) = s := by
  unfold FsState.setBlock
  congr 1
  funext c
  split
  · rename_i hc
    rw [hc]
  · rfl

lemma setBlock_twice (s : FsState) (b : Nat) (v w : Block) : (s.setBlock b v).setBlock b w = s.setBlock b w := by
  unfold FsState.setBlock
  congr 1
  funext c
  split
  · rfl
  · rename_i hc
    exact if_neg hc

lemma setBlock_comm (s : FsState) {a b : Nat} (h : a ≠ b) (v w : Block) :
    (s.setBlock b v).setBlock a w = (s.setBlock a w).setBlock b v := by
  unfold FsState.setBlock
  congr 1
  funext c
  by_cases hc : c = a
  · rw [if_pos hc, if_neg (hc ▸ h)]
    exact (if_pos hc).symm
  · grind

lemma rereads_refl {α : Type} (x : Except Stop (α × FsState)) : Rereads x x := by
  cases x with
  | error e => exact ⟨0, Bytes.fill 0, rfl⟩
  | ok p =>
    refine ⟨0, p.2.disk 0, ?_⟩
    rw [Except.map, setBlock_self]

lemma rereads_bind {α β : Type} {m m' : FsM α} {f f' : α → FsM β} {s s' : FsState} (h : Rereads (m s) (m' s'))
    (hf : ∀ a t b v, Rereads (f a t) (f' a (t.setBlock b v))) : Rereads ((m >>= f) s) ((m' >>= f') s') := by
  obtain ⟨b, v, hEq⟩ := h
  change Rereads (seq m f s) (seq m' f' s')
  unfold seq
  rw [hEq]
  cases m s with
  | error e => exact rereads_refl _
  | ok p => exact hf p.1 p.2 b v

lemma rereads_after {α β : Type} (m : FsM α) {f f' : α → FsM β} (s : FsState) (hf : ∀ a t, Rereads (f a t) (f' a t)) :
    Rereads ((m >>= f) s) ((m >>= f') s) := by
  change Rereads (seq m f s) (seq m f' s)
  unfold seq
  cases m s with
  | error e => exact rereads_refl _
  | ok p => exact hf p.1 p.2

lemma logWrite_setBlock (a b : Nat) (v : Block) (t : FsState) : Rereads (logWrite a t) (logWrite a (t.setBlock b v)) := by
  refine ⟨b, v, ?_⟩
  change (if t.lh.length ≥ logblocks then Prog.stop .logTooBig else if t.outstanding < 1 then Prog.stop .logOutside
    else if a ∈ t.lh then pure () else Prog.update fun s => { s with lh := s.lh ++ [a] } : FsM Unit) (t.setBlock b v) =
    ((if t.lh.length ≥ logblocks then Prog.stop .logTooBig else if t.outstanding < 1 then Prog.stop .logOutside
    else if a ∈ t.lh then pure () else Prog.update fun s => { s with lh := s.lh ++ [a] } : FsM Unit) t).map _
  split
  · rfl
  · split
    · rfl
    · split <;> rfl

lemma iupdate_setBlock (ip : Ip) (b : Nat) (v : Block) (t : FsState) : Rereads (iupdate ip t) (iupdate ip (t.setBlock b v)) := by
  obtain ⟨w, hw⟩ : ∃ w, (t.setBlock b v).setDinode (t.itable ip).inum (t.itable ip).di =
      (t.setDinode (t.itable ip).inum (t.itable ip).di).setBlock b w := by
    unfold FsState.setDinode
    by_cases hb : t.sb.iblock (t.itable ip).inum = b
    · subst hb
      exact ⟨_, (setBlock_twice ..).trans (setBlock_twice ..).symm⟩
    · refine ⟨v, ?_⟩
      rw [show (t.setBlock b v).sb = t.sb from rfl, FsState.setBlock_disk_of_ne _ hb]
      exact setBlock_comm t hb _ _
  change Rereads (logWrite _ (t.setDinode (t.itable ip).inum (t.itable ip).di))
    (logWrite _ ((t.setBlock b v).setDinode (t.itable ip).inum (t.itable ip).di))
  rw [hw]
  exact logWrite_setBlock ..

lemma writeiLoop_whole (ip : Ip) (src : CopyIn) (n : Nat) : ∀ fuel tot off (s : FsState),
    Rereads (writeiLoop ip src n fuel tot off s) (writeiLoop ip (wholeCopies src) n fuel tot off s) := by
  intro fuel
  induction fuel with
  | zero => exact fun _ _ _ => rereads_refl _
  | succ fuel ih =>
    intro tot off s
    unfold writeiLoop
    split
    · refine rereads_after _ s fun addr t => ?_
      split
      · exact rereads_refl _
      · obtain ⟨m, hm⟩ : ∃ m, m = min (n - tot) (bsize - off % bsize) := ⟨_, rfl⟩
        rw [← hm]
        cases hOk : (src tot m).2 with
        | true =>
          have hSame : wholeCopies src tot m = src tot m := if_pos hOk
          simp only [hSame, hOk, if_true]
          exact rereads_after _ t fun _ _ => rereads_after _ _ fun _ _ => ih _ _ _
        | false =>
          have hNone : wholeCopies src tot m = ([], false) := if_neg (by rw [hOk]; decide)
          simp only [hNone, hOk, Bool.false_eq_true, if_false]
          refine ⟨addr, (t.disk addr).write (off % bsize) ([].take m), ?_⟩
          change Except.ok ((tot, off), t.setBlock addr _) = Except.ok ((tot, off), (t.setBlock addr _).setBlock addr _)
          rw [setBlock_twice]
    · exact rereads_refl _

/-- A write has done the same but for the copy that failed. -/
lemma writei_whole (ip : Ip) (src : CopyIn) (off n : Nat) (s : FsState) :
    Rereads (writei ip src off n s) (writei ip (wholeCopies src) off n s) := by
  unfold writei
  refine rereads_after _ s fun d t => ?_
  split
  · exact rereads_refl _
  · split
    · exact rereads_refl _
    · refine rereads_bind (writeiLoop_whole ip src n n 0 off t) fun r u b v => ?_
      refine rereads_bind ⟨b, v, rfl⟩ fun _ u b v => ?_
      exact rereads_bind (iupdate_setBlock ip b v u) fun _ u b v => ⟨b, v, rfl⟩

lemma firstFailure_whole (src : CopyIn) (n : Nat) : ∀ fuel tot off,
    firstFailure (wholeCopies src) n fuel tot off = firstFailure src n fuel tot off := by
  intro fuel
  induction fuel with
  | zero => exact fun _ _ => rfl
  | succ fuel ih =>
    intro tot off
    have hSame : ∀ k l, (wholeCopies src k l).2 = (src k l).2 := by
      intro k l
      unfold wholeCopies
      cases hOk : (src k l).2 <;> simp [hOk]
    unfold firstFailure
    simp only [hSame, ih]

lemma firstFailure_fails {n k : Nat} : ∀ {fuel tot off}, firstFailure src n fuel tot off = some k →
    (src k (min (n - k) (bsize - (off + (k - tot)) % bsize))).2 = false := by
  intro fuel
  induction fuel with
  | zero => exact fun h => by cases h
  | succ fuel ih =>
    intro tot off h
    unfold firstFailure at h
    split at h
    · split at h
      · have hLe := firstFailure_le fuel h
        have hRest := ih h
        rwa [show off + min (n - tot) (bsize - off % bsize) + (k - (tot + min (n - tot) (bsize - off % bsize))) = off + (k - tot) by omega]
          at hRest
      · grind
    · cases h

lemma not_spoils_whole (src : CopyIn) (off n : Nat) (v : Node) : ¬ Spoils (wholeCopies src) off n v := by
  rintro ⟨k, hk, x, hLow, hHigh, -⟩
  rw [firstFailure_whole] at hk
  have hFails := firstFailure_fails hk
  rw [Nat.sub_zero] at hFails
  have hNone : leftover (wholeCopies src) n k (off + k) = [] := by
    unfold leftover wholeCopies
    rw [hFails]
    exact List.take_nil
  rw [hNone, List.length_nil] at hHigh
  omega

lemma writes_of_whole {r : Int} (h : Writes (wholeCopies src) off n i s t r) : Writes src off n i s t r := by
  obtain ⟨tot, hr, hTot, hSize, hBytes, hSame, hOthers, hShort⟩ := h
  refine ⟨tot, hr, hTot, hSize, ?_, hSame, hOthers, ?_⟩
  · intro byte hByte
    apply hBytes byte
    intro k l hOk
    unfold wholeCopies at hOk ⊢
    split at hOk
    · rename_i hYes
      rw [if_pos hYes]
      exact hByte k l hYes
    · cases hOk
  · rw [firstFailure_whole] at hShort
    exact hShort

/-! ## Blocks that are not in the log -/

structure Logged (s t : FsState) : Prop where
  lh : ∀ b ∈ s.lh, b ∈ t.lh
  disk : ∀ b, b ∉ t.lh → t.disk b = s.disk b

instance : Std.Refl Logged := ⟨fun _ => ⟨fun _ hb => hb, fun _ _ => rfl⟩⟩

instance : IsTrans FsState Logged := ⟨fun _ _ _ h1 h2 => ⟨fun b hb => h2.lh b (h1.lh b hb),
  fun b hb => (h2.disk b hb).trans (h1.disk b fun hIn => hb (h2.lh b hIn))⟩⟩

lemma logWrite_logged (s : FsState) (b : Nat) (v : Block) :
    wp (logWrite b) (fun _ => True) (fun _ t => Logged s t) (s.setBlock b v) := by
  have hOther : ∀ c, c ≠ b → (s.setBlock b v).disk c = s.disk c := fun c hc => FsState.setBlock_disk_of_ne v hc
  unfold logWrite
  rw [wp_bind, wp_read]
  split
  · exact (wp_stop _).mpr trivial
  · split
    · exact (wp_stop _).mpr trivial
    · split
      · rename_i hIn
        exact wp_val ⟨fun _ hb => hb, fun c hc => hOther c fun hEq => hc (hEq ▸ hIn)⟩
      · refine (wp_update _).mpr ⟨fun _ hb => List.mem_append_left _ hb, fun c hc => hOther c fun hEq => hc ?_⟩
        rw [hEq]
        exact List.mem_append_right _ (List.mem_singleton_self b)

lemma logged_store {α : Type} (b : Nat) (f : FsState → Block) {rest : FsM α} (h : Moves Logged rest) :
    Moves Logged (Prog.update (fun s => s.setBlock b (f s)) >>= fun _ => logWrite b >>= fun _ => rest) := by
  intro s
  rw [wp_bind, wp_update]
  apply wp_call (logWrite_logged s b (f s))
  exact fun _ t ht => wp_post (h t) fun _ _ hu => IsTrans.trans s t _ ht hu

lemma logged_bzero (b : Nat) : Moves Logged (bzero b) := by
  intro s
  rw [bzero, wp_bind, wp_update]
  exact logWrite_logged s b _

lemma logged_ballocIn (sb : Superblock) (b : Nat) : Moves Logged (ballocIn sb b) := by
  refine .bind (.read _) fun bp => ?_
  cases firstFree bp (min bpb (sb.size - b)) with
  | none => exact .pure _
  | some bi => exact logged_store _ _ (.bind (logged_bzero _) fun _ => .pure _)

lemma logged_balloc : Moves Logged balloc :=
  .bind (.read _) fun _ => .bind (.firstM fun _ => logged_ballocIn _ _) fun _ => .pure _

lemma logged_modDi (ip : Ip) (f : Dinode → Dinode) : Moves Logged (modDi ip f) := .update fun _ => ⟨fun _ hb => hb, fun _ _ => rfl⟩

lemma logged_indirectBlock (ip : Ip) : Moves Logged (indirectBlock ip) :=
  .bind (.read _) fun _ => .ite (.pure _) (.bind logged_balloc fun _ => .ite (.pure _) (.bind (logged_modDi ip _) fun _ => .pure _))

lemma logged_bmap (ip : Ip) (bn : Nat) : Moves Logged (bmap ip bn) := by
  have hDirect : ∀ f : Nat → Dinode → Dinode, Moves Logged (balloc >>= fun addr =>
      if addr = 0 then pure 0 else modDi ip (f addr) >>= fun _ => pure addr) :=
    fun f => .bind logged_balloc fun _ => .ite (.pure _) (.bind (logged_modDi ip _) fun _ => .pure _)
  refine .bind (.read _) fun _ => .ite (.ite (.pure _) (hDirect _)) (.ite ?_ (.stop _))
  refine .bind (logged_indirectBlock ip) fun ind => .ite (.pure _) (.bind (.read _) fun bp => .ite (.pure _) ?_)
  exact .bind logged_balloc fun _ => .ite (logged_store _ _ (.pure _)) (.pure _)

lemma write_nil (v : Block) (off : Nat) : v.write off [] = v := by
  funext j
  have hNo : (off.ble j.val && j.val.blt (off + 0)) = false := by
    by_contra hIn
    simp only [Bool.not_eq_false, Bool.and_eq_true, Nat.ble_eq, Nat.blt_eq] at hIn
    omega
  unfold Bytes.write
  rw [List.length_nil, hNo]
  rfl

lemma logged_writeiLoop (ip : Ip) (hNone : ∀ k l, (src k l).2 = false → (src k l).1 = []) (n : Nat) :
    ∀ fuel tot off, Moves Logged (writeiLoop ip src n fuel tot off) := by
  intro fuel
  induction fuel with
  | zero => exact fun _ _ => .pure _
  | succ fuel ih =>
    intro tot off
    unfold writeiLoop
    refine .ite (.bind (logged_bmap ip _) fun addr => .ite (.pure _) ?_) (.pure _)
    obtain ⟨m, hm⟩ : ∃ m, m = min (n - tot) (bsize - off % bsize) := ⟨_, rfl⟩
    rw [← hm]
    cases hOk : (src tot m).2 with
    | true =>
      simp only [hOk, if_true]
      exact logged_store _ _ (ih _ _)
    | false =>
      simp only [hOk, hNone tot m hOk, Bool.false_eq_true, if_false, List.take_nil]
      refine .bind (.update fun s => ?_) fun _ => .pure _
      rw [write_nil, setBlock_self]
      exact Std.Refl.refl s

lemma logged_iupdate (ip : Ip) : Moves Logged (iupdate ip) := by
  intro s
  rw [iupdate, wp_bind, wp_getInode, wp_bind, wp_read, wp_bind, wp_update]
  exact logWrite_logged s _ _

/-- A write whose failing copies store nothing changes only blocks that it logs. -/
lemma logged_writei (ip : Ip) (hNone : ∀ k l, (src k l).2 = false → (src k l).1 = []) (off n : Nat) :
    Moves Logged (writei ip src off n) :=
  .bind (.read _) fun _ => .ite (.pure _) (.ite (.pure _) (.bind (logged_writeiLoop ip hNone n n 0 off) fun _ =>
    .bind (logged_modDi ip _) fun _ => .bind (logged_iupdate ip) fun _ => .pure _))

lemma wholeCopies_none (src : CopyIn) (k l : Nat) (h : (wholeCopies src k l).2 = false) :
    (wholeCopies src k l).1 = [] := by
  unfold wholeCopies at h ⊢
  split at h
  · rename_i hYes
    rw [hYes] at h
    cases h
  · rename_i hNo
    rw [if_neg hNo]

/-- Read from the disk again, a block that is not in the log is as after the write or as without the copy that failed. -/
lemma reread_cases {r : Int} (h : writei ip src off n s = .ok (r, t)) {b : Nat} (hb : b ∉ t.lh) :
    t.disk b = s.disk b ∧ t.setBlock b (s.disk b) = t ∨ writei ip (wholeCopies src) off n s = .ok (r, t.setBlock b (s.disk b)) := by
  obtain ⟨c, v, hAgain⟩ := writei_whole ip src off n s
  rw [h] at hAgain
  have hLogged := (logged_writei ip (wholeCopies_none src) off n).of_ok hAgain
  have hSame := hLogged.disk b hb
  by_cases hc : b = c
  · subst hc
    have hv : v = s.disk b := (FsState.setBlock_disk_same b v).symm.trans hSame
    rw [← hv]
    exact .inr hAgain
  · rw [FsState.setBlock_disk_of_ne v hc] at hSame
    exact .inl ⟨hSame, by rw [← hSame, setBlock_self]⟩

/-! ## Reads and writes -/

/-- Reads of file `i` to a destination that takes everything deliver the bytes that the file has in the range. -/
def Delivers (ip : Ip) (i : Nat) (s : FsState) : Prop :=
  ∀ off n, readi ip (fun _ _ => true) off n s =
    .ok ((((s.files i).found off n : Int), (s.files i).slice off ((s.files i).found off n)), s)

lemma delivers (h : Consistent s) (hip : Loaded s ip i) : Delivers ip i s := by
  intro off n
  obtain ⟨r, t, hRun, rfl, hr⟩ := wp_total (readi_slice h hip (fun _ _ => true) off n)
  rcases hr with ⟨-, k, l, hFalse⟩ | rfl
  · cases hFalse
  · exact hRun

lemma writei_writes (h : Consistent s) (hip : Loaded s ip i) (hOff : off ≤ (s.files i).size) (hMax : off + n ≤ maxfile * bsize)
    (src : CopyIn) :
    wp (writei ip src off n) (fun e => OfLog e ∧ ¬ LogRoom s off n) (fun r t => Consistent t ∧ Loaded t ip i ∧
      (Writes src off n i s t r ↔ ¬ Spoils src off n (s.files i))) s := by
  have hFits : off + n ≤ 268 * 1024 := hMax
  have hWrap : (off + n) % 2 ^ 32 = off + n := Nat.mod_eq_of_lt (by omega)
  apply wp_mono (wp_both (writei_stops ip src off n s) (writei_exact (fun _ _ => trivial) h hip src off n)) (fun _ he => he.1)
  rintro r t ⟨-, ⟨-, -, hOut⟩ | ⟨tot, f, rfl, -, hMoved, hEnds, hAlters⟩⟩
  · omega
  · exact ⟨hAlters.consistent, hAlters.loaded hip, writes_iff h hip hMoved hEnds hAlters⟩

lemma writei_refuses (h : Consistent s) (hip : Loaded s ip i) (hOff : off < 2 ^ 32) (hn : n < 2 ^ 32)
    (hOut : (s.files i).size < off ∨ 2 ^ 32 ≤ off + n ∨ maxfile * bsize < off + n) (src : CopyIn) :
    writei ip src off n s = .ok (-1, s) := by
  have hSize : (s.files i).size = (s.inode i).size.toNat := h.size_eq hip
  have hRun : wp (writei ip src off n) (fun _ => False) (fun r t => r = -1 ∧ t = s) s := by
    unfold writei
    rw [wp_bind, wp_getInode, h.di hip, ← hSize, wp_ite]
    refine ⟨fun _ => wp_val ⟨rfl, rfl⟩, fun hIn => ?_⟩
    rw [if_pos (by omega), wp_pure]
    exact ⟨rfl, rfl⟩
  obtain ⟨r, t, hEq, rfl, rfl⟩ := wp_total hRun
  exact hEq

namespace WriteSample

def disk : Nat → Block
  | 4 => Dinode.store ⟨tFile, 0, 0, 1, 4, oneBlock 7⟩ (Sample.disk 4) 128
  | 5 => (Bytes.fill 0 : Block).write 0 [255, 0]
  | 7 => (Bytes.fill 0 : Block).write 0 [1, 2, 3, 4]
  | b => Sample.disk b

def unused : FsState := { Sample.fs with disk := disk, outstanding := 1 }

def fs : FsState := unused.setInode ip0 ⟨rootdev, 2, 1, true, true, unused.inode 2⟩

lemma unused_consistent : Consistent unused := FsState.consistent_of_check (by decide +kernel) fun _ => rfl

lemma fs_consistent : Consistent fs := by
  have hView : View unused unused.sb unused.entries unused.files := ⟨unused_consistent, rfl, rfl, rfl⟩
  have hTable : TableOk unused.sb.ninodes (Function.update unused.entries ip0 ⟨rootdev, 2, 1, true, true⟩) := by
    apply hView.table.take Int.one_pos rfl (by decide)
    intro jp hRef
    exact absurd hRef (lt_irrefl _)
  apply (hView.setInode hTable _).consistent
  exact fun _ _ => ⟨rfl, by decide +kernel⟩

lemma loaded : Loaded fs ip0 2 := ⟨by decide, by decide, by decide⟩

lemma logRoom : LogRoom fs 0 2 := ⟨by decide, by decide, by decide⟩

def given (k l : Nat) : Text × Bool := (([5, 6].drop k).take l, true)

def torn (_ _ : Nat) : Text × Bool := ([9], false)

end WriteSample

end Xv6K230.Fs
