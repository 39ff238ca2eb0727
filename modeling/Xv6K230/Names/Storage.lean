import Xv6K230.Names.System

/-! # Files and blocks while processes share the name space

What the consistency of a reachable state says about blocks and about reading: every block
has one owner, and a read finds a block for every byte of a file.
-/

namespace Xv6K230.Names

open Fs Prog

section

variable {s : Processes}

lemma Reaches.view (h : Reaches s) : ∃ e, View s.shared.fs s.shared.fs.sb e s.shared.fs.files ∧
    (∀ x, (s.shared.ftable x).type = .inode → 0 < (e (s.shared.ftable x).ip).ref) ∧
    DirsInRange s.shared.fs.sb.ninodes s.shared.fs.files := by
  obtain ⟨sb, st, g, f, hWorld⟩ := h.world
  have hRange := hWorld.range
  obtain ⟨e, hJob, hCounted, -⟩ := hWorld.turn
  have hView := hJob.view
  obtain rfl := hView.sb
  obtain rfl := hView.files
  refine ⟨e, hView, fun x hx => ?_, hRange⟩
  obtain ⟨m, rest, hst, hm, -⟩ := hWorld.held.file x
  cases hm with
  | none kind => rcases kind with kind | kind <;> simp [hx] at kind
  | inode i kind opened plain =>
    have hMem : (⟨(s.shared.ftable x).ip, i, true⟩ : Ref) ∈ st + g := by simp [hst]
    exact hCounted.pos hMem

end

/-- Whatever processes do at the same time, including calls that fail, every block that an allocated
inode or its indirect block names is a data block, it is named in one place only, and the bitmap
marks exactly these blocks. So `bfree` never frees a block that is free. -/
theorem block_ownership {s : Processes} (h : Reaches s) :
    (∀ i q j r, s.shared.fs.Live s.shared.fs.inode i → s.shared.fs.Live s.shared.fs.inode j → q < nslots → r < nslots →
      slotAt s.shared.fs.disk (s.shared.fs.inode i) q ≠ 0 →
      slotAt s.shared.fs.disk (s.shared.fs.inode i) q = slotAt s.shared.fs.disk (s.shared.fs.inode j) r → (i, q) = (j, r)) ∧
    (∀ b, s.shared.fs.sb.nmeta ≤ b → b < s.shared.fs.sb.size → (s.shared.fs.bit b = true ↔
      ∃ i q, s.shared.fs.Live s.shared.fs.inode i ∧ q < nslots ∧ slotAt s.shared.fs.disk (s.shared.fs.inode i) q = b)) ∧
    (∀ i q, s.shared.fs.Live s.shared.fs.inode i → q < nslots → slotAt s.shared.fs.disk (s.shared.fs.inode i) q ≠ 0 →
      s.shared.fs.sb.nmeta ≤ slotAt s.shared.fs.disk (s.shared.fs.inode i) q ∧
        slotAt s.shared.fs.disk (s.shared.fs.inode i) q < s.shared.fs.sb.size) ∧
    ∀ (p : Pid) (β : Type) (l : Section β) (c : β → Coded Pid), s.proc p = .call l c →
      Section.run β l s.shared ≠ .error .freeingFreeBlock := by
  obtain ⟨e, hView, -, -⟩ := h.view
  have hPlaced := hView.consistent.owned.placed
  have hPlace : ∀ {i q}, s.shared.fs.Live s.shared.fs.inode i → q < nslots → slotAt s.shared.fs.disk (s.shared.fs.inode i) q ≠ 0 →
      s.shared.fs.place s.shared.fs.inode none (some (i, q)) = some (slotAt s.shared.fs.disk (s.shared.fs.inode i) q) :=
    fun hLive hq hne => FsState.place_some_iff.mpr ⟨hLive, hq, rfl, hne⟩
  refine ⟨?_, ?_, ?_, ?_⟩
  · grind [hPlaced.inj]
  · intro b hLow hHigh
    constructor
    · intro hBit
      obtain ⟨p, hp⟩ := (hPlaced.used_iff b).mp ⟨hLow, hHigh, hBit⟩
      rcases p with _ | ⟨i, q⟩
      · cases hp
      · obtain ⟨hLive, hq, hAt, -⟩ := FsState.place_some_iff.mp hp
        exact ⟨i, q, hLive, hq, hAt⟩
    · rintro ⟨i, q, hLive, hq, rfl⟩
      have hMeta : 0 < s.shared.fs.sb.nmeta := Nat.succ_pos _
      exact (hPlaced.used_of (hPlace hLive hq (by omega))).2.2
  · intro i q hLive hq hne
    have hUsed := hPlaced.used_of (hPlace hLive hq hne)
    exact ⟨hUsed.1, hUsed.2.1⟩
  · intro p β l c hp hRun
    obtain ⟨sb, hShares⟩ := h.shares
    exact wp_error (hShares.section_ (fun _ => trivial) hp trivial) hRun rfl

open NamesSample in
theorem block_ownership_opened : ∃ s, Reaches s ∧ openedFile s = true ∧
    ∀ (p : Pid) (β : Type) (l : Section β) (c : β → Coded Pid), s.proc p = .call l c →
      Section.run β l s.shared ≠ .error .freeingFreeBlock := by
  obtain ⟨s, hs, hTest⟩ := opened_reaches
  exact ⟨s, hs, hTest, (block_ownership hs).2.2.2⟩

/-- A read of an inode that is in memory delivers its bytes and changes nothing. -/
def Reads (fs : FsState) : Prop :=
  ∀ ip, 0 < (fs.itable ip).ref → (fs.itable ip).valid = true → ∀ copy off n, ∃ r, readi ip copy off n fs = .ok (r, fs) ∧
    ((r.1 = -1 ∧ ∃ k l, copy k l = false) ∨
      r = (((fs.files (fs.itable ip).inum).found off n : Int),
        (fs.files (fs.itable ip).inum).slice off ((fs.files (fs.itable ip).inum).found off n)))

lemma reads_of_consistent {fs : FsState} (h : Consistent fs) : Reads fs := by
  intro ip hRef hValid copy off n
  have hRead := readi_slice (E := fun _ => False) h ⟨hRef, hValid, rfl⟩ copy off n
  obtain ⟨r, t, hRun, rfl, hr⟩ := wp_total hRead
  exact ⟨r, hRun, hr⟩

/-- `fileread` on an open inode neither uses the log nor changes a file, and returns short only at the
end of the file. -/
lemma fileread_spec {k : Kernel} {sb : Superblock} {e : Ip → Entry} {f : Nat → Node} (h : View k.fs sb e f) {x : Fp}
    (hReadable : (k.ftable x).readable = true) (hType : (k.ftable x).type = .inode) (hRef : 0 < (e (k.ftable x).ip).ref)
    (copy : Nat → Text → Bool) (n : Int32) (other : Int) :
    wp (fileread x copy n other) LogFits (fun r t => SameLog k.fs t.fs ∧ t.fs.files = f ∧
      ((r = -1 ∧ ∃ j l, copy j l = false) ∨
        r = (f (e (k.ftable x).ip).inum).found (k.ftable x).off n.toUInt32.toNat)) k := by
  obtain ⟨v, hv⟩ : ∃ v, v = k.ftable x := ⟨_, rfl⟩
  rw [← hv] at hReadable hType hRef ⊢
  unfold fileread
  rw [wp_bind, wp_getFile, ← hv, if_neg (by simp [hReadable]), hType]
  unfold filereadInode
  simp only [wp_bind, wp_getFile, ← hv, wp_onFs, wp_pure]
  apply wp_post (ilock_spec (fun _ _ he => he) h hRef fun _ _ => by simp [LogFits])
  rintro _ s ⟨hLog, -, hs, -⟩
  have hAt : lockedTable e v.ip v.ip = { e v.ip with locked := true, valid := true } := Function.update_self ..
  have hPos : 0 < (lockedTable e v.ip v.ip).ref := by rwa [hAt]
  have hip := hs.loaded hPos (by rw [hAt])
  rw [hAt] at hip
  simp only [Kernel.setFs_ftable, ← hv]
  apply wp_post (readi_slice hs.consistent hip copy v.off n.toUInt32.toNat)
  rintro r t ⟨rfl, hr⟩
  rw [hs.files] at hr
  have hUnlock : wp (iunlock v.ip) LogFits (fun _ u => SameLog k.fs u ∧ u.files = f) t := by
    apply wp_post (iunlock_spec (fun _ _ he => he) hs hPos)
    rintro _ u ⟨hLog', hu⟩
    exact ⟨⟨hLog'.1.trans hLog.1, hLog'.2.trans hLog.2⟩, hu.files⟩
  have hResult : (r.1 = -1 ∧ ∃ j l, copy j l = false) ∨ r.1 = ((f (e v.ip).inum).found v.off n.toUInt32.toNat : Int) :=
    hr.imp_right fun hr => congrArg Prod.fst hr
  rw [wp_ite]
  constructor
  · intro _
    simp only [wp_bind, wp_modFile, wp_onFs, wp_pure]
    exact wp_post hUnlock fun _ u hu => ⟨hu.1, hu.2, hResult⟩
  · intro _
    simp only [wp_bind, wp_onFs, wp_pure]
    exact wp_post hUnlock fun _ u hu => ⟨hu.1, hu.2, hResult⟩

/-- Whatever processes do at the same time, every allocated inode has a block for each file block below
its size. So `readi` delivers what the file has and changes nothing, whatever the log is like, and
`dirlookup` and `fileread` never reach `log_write`. -/
theorem reads_never_allocate {s : Processes} (h : Reaches s) :
    (∀ i, s.shared.fs.Live s.shared.fs.inode i → (s.shared.fs.inode i).Whole s.shared.fs.disk) ∧
    (∀ o l, Reads { s.shared.fs with outstanding := o, lh := l }) ∧
    (∀ dp name, 0 < (s.shared.fs.itable dp).ref → (s.shared.fs.itable dp).valid = true →
      wp (dirlookup dp name) LogFits (fun _ t => SameLog s.shared.fs t ∧ t.files = s.shared.fs.files) s.shared.fs) ∧
    ∀ x copy n other, (s.shared.ftable x).readable = true → (s.shared.ftable x).type = .inode →
      wp (fileread x copy n other) LogFits (fun r t => SameLog s.shared.fs t.fs ∧ t.fs.files = s.shared.fs.files ∧
        ((r = -1 ∧ ∃ j l, copy j l = false) ∨
          r = (s.shared.fs.files (s.shared.fs.itable (s.shared.ftable x).ip).inum).found (s.shared.ftable x).off n.toUInt32.toNat))
        s.shared := by
  obtain ⟨e, hView, hOpen, hRange⟩ := h.view
  refine ⟨hView.consistent.full, fun o l => reads_of_consistent (hView.log o l).consistent, ?_, ?_⟩
  · intro dp name hRef hValid
    rw [hView.ref] at hRef
    rw [hView.valid] at hValid
    apply wp_post (dirlookup_spec (fun _ _ he => he) hView hRef hValid (hRange _) name)
    rintro (_ | ⟨ip, off⟩) t ⟨-, ht⟩
    · rw [ht.1]
      exact ⟨.rfl, rfl⟩
    · obtain ⟨-, hLog, e', -, hView'⟩ := ht
      exact ⟨hLog, hView'.files⟩
  · grind [hView.inum, fileread_spec]

open NamesSample in
theorem reads_never_allocate_opened : ∃ s, Reaches s ∧ openedFile s = true ∧ ∀ o l, Reads { s.shared.fs with outstanding := o, lh := l } := by
  obtain ⟨s, hs, hTest⟩ := opened_reaches
  exact ⟨s, hs, hTest, (reads_never_allocate hs).2.1⟩

end Xv6K230.Names
