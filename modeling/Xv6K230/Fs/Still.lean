import Xv6K230.Fs.Directory

/-! # Functions that leave the disk as it is

Taking, locking and dropping references touches only the table of inodes.
-/

namespace Xv6K230.Fs

open Prog

variable {E : Stop → Prop} {s t u : FsState} {sb : Superblock} {e : Ip → Entry} {f : Nat → Node} {ip dp : Ip} {dev i : Nat}

structure Still (s t : FsState) : Prop where
  sb : t.sb = s.sb
  disk : t.disk = s.disk

lemma Still.refl (s : FsState) : Still s s := ⟨rfl, rfl⟩

lemma Still.trans (h : Still s t) (h' : Still t u) : Still s u := ⟨h'.sb.trans h.sb, h'.disk.trans h.disk⟩

lemma Still.withLh (s : FsState) (l : List Nat) : Still s (s.withLh l) := ⟨rfl, rfl⟩

lemma Still.setInode (s : FsState) (ip : Ip) (x : Inode) : Still s (s.setInode ip x) := ⟨rfl, rfl⟩

lemma iget_still (hFull : (∀ ip, (s.itable ip).ref ≠ 0) → E .igetNoInodes) : wp (iget dev i) E (fun _ t => Still s t) s := by
  unfold iget modInode
  rw [wp_bind, wp_read]
  cases findInode s.itable dev i with
  | some ip =>
    dsimp only
    rw [wp_bind, wp_update, wp_pure]
    exact .setInode ..
  | none =>
    cases hEmpty : emptySlot s.itable with
    | none =>
      refine (wp_stop _).mpr (hFull fun ip hZero => ?_)
      have hNot := List.find?_eq_none.mp hEmpty ip (List.mem_finRange ip)
      simp [hZero] at hNot
    | some ip =>
      dsimp only
      rw [wp_bind, wp_update, wp_pure]
      exact .setInode ..

lemma idup_still : wp (idup ip) E (fun _ t => Still s t) s := by
  unfold idup modInode
  rw [wp_bind, wp_update, wp_pure]
  exact .setInode ..

lemma ilock_still (hRef : (s.itable ip).ref < 1 → E .ilock) (hLocked : (s.itable ip).locked = true → E .asleep)
    (hType : (s.itable ip).valid = false → (s.dinode (s.itable ip).inum).type = 0 → E .ilockNoType) :
    wp (ilock ip) E (fun _ t => Still s t) s := by
  unfold ilock acquiresleep modInode
  simp only [wp_bind, wp_getInode, wp_ite, wp_stop, wp_update, wp_read, wp_pure]
  refine ⟨hRef, fun _ => ⟨hLocked, fun _ => ⟨fun hValid => ⟨fun hZero => hType ?_ ?_, fun _ => ⟨rfl, rfl⟩⟩, fun _ => ⟨rfl, rfl⟩⟩⟩⟩
  · simpa using hValid
  · exact hZero

lemma iunlock_still (hHeld : (s.itable ip).locked = false ∨ (s.itable ip).ref < 1 → E .iunlock) :
    wp (iunlock ip) E (fun _ t => Still s t) s := by
  unfold iunlock releasesleep modInode
  simp only [wp_bind, wp_getInode, wp_ite, wp_stop, wp_update]
  refine ⟨fun hBad => hHeld ?_, fun _ => ⟨rfl, rfl⟩⟩
  simpa using hBad

lemma iput_still (hKept : ¬ ((s.itable ip).ref = 1 ∧ (s.itable ip).valid = true ∧ (s.itable ip).di.nlink = 0)) :
    wp (iput ip) E (fun _ t => Still s t) s := by
  unfold iput modInode
  rw [wp_bind, wp_getInode, if_neg hKept]
  exact (wp_update _).mpr (.setInode ..)

lemma beginOp_still (hAsleep : E .asleep) : wp beginOp E (fun _ t => Still s t) s := by
  unfold beginOp
  rw [wp_bind, wp_read, wp_ite]
  exact ⟨fun _ => (wp_stop _).mpr hAsleep, fun _ => (wp_update _).mpr ⟨rfl, rfl⟩⟩

lemma dirlookup_still (h : View s sb e f) (hRef : 0 < (e dp).ref) (hValid : (e dp).valid = true)
    (hDir : (f (e dp).inum).type ≠ tDir → E .dirlookupNotDir) (hAligned : (f (e dp).inum).size % 16 ≠ 0 → E .dirlookupRead)
    (hFull : (∀ ip, (s.itable ip).ref ≠ 0) → E .igetNoInodes) (name : Text) :
    wp (dirlookup dp name) E (fun _ t => Still s t) s := by
  have hSize := h.size hRef hValid
  unfold dirlookup
  rw [wp_bind, wp_getInode, wp_ite]
  constructor
  · intro hNot
    rw [h.type hRef hValid] at hNot
    exact (wp_stop _).mpr (hDir hNot)
  · intro _
    rw [hSize]
    apply scan_spec (P := fun de => de.inum ≠ 0 ∧ namecmp name de.name = 0)
      (g := fun de off => do
        if de.inum = 0 then return none
        else if namecmp name de.name = 0 then
          let ip ← iget (s.itable dp).dev de.inum.toNat
          return some (ip, off)
        else return none) h hRef hValid hAligned
    · intro off _ hP
      rw [wp_ite]
      constructor
      · exact fun _ => wp_val ⟨rfl, rfl⟩
      · intro hne
        rw [if_neg fun hName => hP ⟨hne, hName⟩, wp_pure]
        exact ⟨rfl, rfl⟩
    · rintro off _ ⟨hne, hName⟩
      rw [if_neg hne, if_pos hName]
      apply wp_call (iget_still hFull)
      exact fun ip t ht => wp_val ⟨⟨_, rfl⟩, ht⟩
    · exact fun off hOff => mem_direntOffsets.mp hOff
    · exact fun _ => .refl s

end Xv6K230.Fs
