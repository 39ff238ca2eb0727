import Xv6K230.Names.Changes

/-! # The references that the kernel's tables hold

Every open file of an inode and every current directory is a counted reference.
-/

namespace Xv6K230.Names

open Multiset (add_cons cons_add mem_add mem_cons mem_cons_of_mem mem_cons_self mem_of_le singleton_add)
open Fs Prog

inductive FileHolds (f : Nat → Node) (v : File) : Multiset Ref → Prop where
  | none (kind : v.type = .none ∨ v.type = .pipe) : FileHolds f v 0
  | inode (i : Nat) (kind : v.type = .inode ∨ v.type = .device) (opened : 0 < v.ref)
      (plain : v.type = .inode → v.writable = true → (f i).type ≠ tDir) : FileHolds f v {⟨v.ip, i, true⟩}

inductive CwdHolds (p : Proc) : Multiset Ref → Prop where
  | none (h : p.cwd = .none) : CwdHolds p 0
  | some (r : Ref) (h : p.cwd = .some r.ip) : CwdHolds p {r}

def Held (k : Kernel) (st : Multiset Ref) (f : Nat → Node) : Prop :=
  ∃ (files : Fp → Multiset Ref) (cwds : Pid → Multiset Ref) (lost : Multiset Ref), st = ∑ x, files x + ∑ p, cwds p + lost ∧
    (∀ x, FileHolds f (k.ftable x) (files x)) ∧ ∀ p, CwdHolds (k.proc p) (cwds p)

section

variable {k t : Kernel} {st m : Multiset Ref} {f f' : Nat → Node} {v : File} {x : Fp} {p : Pid}

lemma FileHolds.ref (h : FileHolds f v m) {n : Int} (hn : 0 < n) : FileHolds f { v with ref := n } m := by
  cases h with
  | none kind => exact .none kind
  | inode i kind _ plain => exact .inode i kind hn plain

lemma FileHolds.off (h : FileHolds f v m) (n : Nat) : FileHolds f { v with off := n } m := by
  cases h with
  | none kind => exact .none kind
  | inode i kind opened plain => exact .inode i kind opened plain

lemma FileHolds.types (h : FileHolds f v m) (hTypes : ∀ r ∈ m, (f' r.inum).type = (f r.inum).type) : FileHolds f' v m := by
  cases h with
  | none kind => exact .none kind
  | inode i kind opened plain =>
    refine .inode i kind opened fun hType hWritable => ?_
    rw [hTypes _ (Multiset.mem_singleton_self _)]
    exact plain hType hWritable

lemma CwdHolds.congr {p q : Proc} (h : CwdHolds p m) (hCwd : q.cwd = p.cwd) : CwdHolds q m := by
  cases h with
  | none hNone => exact .none (hCwd.trans hNone)
  | some r hSome => exact .some r (hCwd.trans hSome)

lemma Held.file (h : Held k st f) (x : Fp) : ∃ m rest, st = m + rest ∧ FileHolds f (k.ftable x) m ∧
    ∀ v m', FileHolds f v m' → Held (k.setFile x v) (m' + rest) f := by
  obtain ⟨files, cwds, lost, rfl, hFiles, hCwds⟩ := h
  refine ⟨files x, (∑ y ∈ Finset.univ.erase x, files y) + ∑ p, cwds p + lost, ?_, hFiles x, ?_⟩
  · rw [← Finset.add_sum_erase _ _ (Finset.mem_univ x)]
    simp only [add_assoc]
  · intro v m' hv
    refine ⟨Function.update files x m', cwds, lost, ?_, ?_, hCwds⟩
    · rw [Pool.sum_update]
      simp only [add_assoc]
    · grind [setFile_ftable_same, Function.update_apply, setFile_ftable_of_ne]

lemma Held.cwd (h : Held k st f) (p : Pid) : ∃ m rest, st = m + rest ∧ CwdHolds (k.proc p) m ∧
    ∀ q m', CwdHolds q m' → Held (k.setProc p q) (m' + rest) f := by
  obtain ⟨files, cwds, lost, rfl, hFiles, hCwds⟩ := h
  refine ⟨cwds p, (∑ x, files x) + (∑ q ∈ Finset.univ.erase p, cwds q) + lost, ?_, hCwds p, ?_⟩
  · rw [← Finset.add_sum_erase Finset.univ cwds (Finset.mem_univ p)]
    simp only [add_assoc, add_left_comm]
  · intro q m' hq
    refine ⟨files, Function.update cwds p m', lost, ?_, hFiles, ?_⟩
    · rw [Pool.sum_update]
      simp only [add_assoc, add_left_comm]
    · grind [setProc_proc_same, Function.update_apply, setProc_proc_of_ne]

lemma Held.lose (h : Held k st f) (m : Multiset Ref) : Held k (m + st) f := by
  obtain ⟨files, cwds, lost, rfl, hFiles, hCwds⟩ := h
  refine ⟨files, cwds, m + lost, ?_, hFiles, hCwds⟩
  simp only [add_assoc, add_left_comm]

lemma Held.congr (h : Held k st f) (hFiles : t.ftable = k.ftable) (hCwds : ∀ p, (t.proc p).cwd = (k.proc p).cwd) : Held t st f := by
  obtain ⟨files, cwds, lost, rfl, hOldFiles, hOldCwds⟩ := h
  refine ⟨files, cwds, lost, rfl, fun x => ?_, fun p => (hOldCwds p).congr (hCwds p)⟩
  rw [hFiles]
  exact hOldFiles x

lemma Held.types (h : Held k st f) (hTypes : ∀ r ∈ st, (f' r.inum).type = (f r.inum).type) : Held k st f' := by
  obtain ⟨files, cwds, lost, rfl, hFiles, hCwds⟩ := h
  refine ⟨files, cwds, lost, rfl, fun x => (hFiles x).types fun r hr => hTypes r ?_, hCwds⟩
  exact mem_add.mpr (.inl (mem_add.mpr (.inl (Multiset.mem_sum.mpr ⟨x, Finset.mem_univ x, hr⟩))))

end

/-! ## States between sections -/

def Quiet (e : Stop) : Prop := e ≠ .freeingFreeBlock

instance (e : Stop) : Decidable (Quiet e) := inferInstanceAs (Decidable (e ≠ _))

lemma quiet_tame : Quota.free.Tame Quiet := fun _ he _ => he.1

structure World (I : (Nat → Node) → Prop) (sb : Superblock) (k : Kernel) (st g : Multiset Ref) (L : Finset Ip) (f : Nat → Node) : Prop where
  turn : Turn k.fs sb (st + g) L f .free
  held : Held k st f
  used : ∀ r ∈ st, (f r.inum).type ≠ 0
  root : 1 < sb.ninodes
  range : DirsInRange sb.ninodes f
  more : I f

def Lasting (I : (Nat → Node) → Prop) (Frame : Multiset Ref → Prop) (N : Nat) : Prop :=
  ∀ st fr f f', Frame fr → (∀ r ∈ st, (f r.inum).type ≠ 0) → DirsInRange N f → I f → Change true N (st + fr) f f' → I f'

lemma Admits.plain {omode : Nat} {type : UInt16} (h : Admits omode type) (hMode : omode &&& oWronly ≠ 0 ∨ omode &&& oRdwr ≠ 0) :
    type ≠ tDir := by
  rintro rfl
  unfold Admits at h
  split at h
  · simp [tDir, tFile, tDevice] at h
  · rcases eq_or_ne omode 0 with rfl | hne
    · simp at hMode
    · exact h ⟨rfl, hne⟩

namespace World

variable {I : (Nat → Node) → Prop} {Frame : Multiset Ref → Prop} {names : Bool} {sb : Superblock} {k : Kernel} {t : FsState}
  {st g g' x y fr : Multiset Ref} {L L' : Finset Ip} {f f' : Nat → Node} {r : Ref}

lemma changes (h : World I sb k st g L f) (hI : Lasting I Frame sb.ninodes) (hFrame : Frame fr)
    (hc : Changes names sb.ninodes (st + fr) f f') :
    Held k st f' ∧ (∀ r ∈ st, (f' r.inum).type ≠ 0) ∧ DirsInRange sb.ninodes f' ∧ I f' := by
  induction hc with
  | refl => exact ⟨h.held, h.used, h.range, h.more⟩
  | tail _ hStep ih =>
    obtain ⟨hHeld, hUsed, hRange, hMore⟩ := ih
    have hTypes : ∀ r ∈ st, _ := fun r hr => hStep.type_eq (mem_add.mpr (.inl hr)) (hUsed r hr)
    refine ⟨hHeld.types hTypes, fun r hr => ?_, hStep.inRange h.turn.short (Nat.zero_lt_of_lt h.root) hRange,
      hI st fr _ _ hFrame hUsed hRange hMore hStep.naming⟩
    rw [hTypes r hr]
    exact hUsed r hr

lemma setFs (h : World I sb k st g L f) (ht : Turn t sb (st + g') L' f .free) : World I sb (k.setFs t) st g' L' f :=
  ⟨ht, h.held.congr rfl fun _ => rfl, h.used, h.root, h.range, h.more⟩

lemma gain (h : World I sb k st g L f) (ht : Turn t sb (r ::ₘ (st + g)) L' f .free) : World I sb (k.setFs t) st (r ::ₘ g) L' f := by
  rw [← add_cons] at ht
  exact h.setFs ht

lemma setFs_changes (h : World I sb k st g L f) (hI : Lasting I Frame sb.ninodes) (hFrame : Frame fr)
    (hc : Changes names sb.ninodes (st + fr) f f') (ht : Turn t sb (st + g') L' f' .free) : World I sb (k.setFs t) st g' L' f' := by
  obtain ⟨hHeld, hUsed, hRange, hMore⟩ := h.changes hI hFrame hc
  exact ⟨ht, hHeld.congr rfl fun _ => rfl, hUsed, h.root, hRange, hMore⟩

lemma cons_turn (h : World I sb k st (r ::ₘ y) L f) : Turn k.fs sb (r ::ₘ (st + y)) L f .free := by
  rw [← add_cons]
  exact h.turn

/-- A reference of the tables or of another process to the inode of `r` is in its entry. -/
lemma ip_eq (h : World I sb k st (r ::ₘ y) L f) (hy : fr ≤ y) : ∀ r' ∈ st + fr, r'.inum = r.inum → r'.ip = r.ip := by
  intro r' hr' hInum
  have hMem : r' ∈ st + y := mem_of_le (add_le_add_right hy st) hr'
  exact h.cons_turn.ip_eq (mem_cons_of_mem hMem) (mem_cons_self _ _) hInum

/-! ## Sections of the file system -/

lemma beginOp (h : World I sb k st g ∅ f) : wp (onFs Fs.beginOp) Quiet (fun _ t => World I sb t st g ∅ f) k := by
  rw [wp_onFs]
  exact wp_post (h.turn.beginOp quiet_tame) fun _ t ht => h.setFs ht

lemma endOp (h : World I sb k st g ∅ f) : wp (onFs Fs.endOp) Quiet (fun _ t => World I sb t st g ∅ f) k := by
  rw [wp_onFs]
  exact wp_post h.turn.endOp fun _ t ht => h.setFs ht

lemma start (h : World I sb k st g ∅ f) (me : Pid) (absolute : Bool) :
    wp (startAt me absolute) Quiet (fun ip t => ∃ r : Ref, r.ip = ip ∧ World I sb t st (r ::ₘ g) ∅ f) k := by
  unfold startAt
  rw [wp_bind, wp_getProc]
  obtain ⟨m, rest, hst, hCwd, -⟩ := h.held.cwd me
  cases hCwd with
  | none hNone =>
    rw [hNone]
    exact (wp_stop _).mpr (by decide)
  | some r hSome =>
    rw [hSome]
    have hr : r ∈ st + g := by simp [hst]
    rw [wp_onFs]
    apply wp_post (h.turn.walkStart quiet_tame hr h.root absolute)
    intro ip t ht
    exact ⟨_, by rfl, h.gain ht⟩

lemma step (h : World I sb k st g ∅ f) (hr : r ∈ g) (name : Text) (last : Bool) :
    wp (onFs (walkStep r.ip name last)) Quiet (fun res t =>
      match res with
      | some (some next) => ∃ r' : Ref, r'.ip = next ∧ World I sb t st (r' ::ₘ g) ∅ f
      | _ => World I sb t st g ∅ f) k := by
  rw [wp_onFs]
  apply wp_post (h.turn.walkStep quiet_tame (mem_add.mpr (.inr hr)) (fun _ => by decide) (h.range r.inum) name last)
  rintro (_ | _ | next) t ⟨-, ht⟩
  · exact h.setFs ht.2
  · exact h.setFs ht.2.2
  · obtain ⟨-, -, off, -, ht⟩ := ht
    exact ⟨_, by rfl, h.gain ht⟩

lemma look (h : World I sb k st g ∅ f) (hr : r ∈ g) : wp (onFs (Names.look r.ip)) Quiet (fun _ t => World I sb t st g ∅ f) k := by
  rw [wp_onFs]
  apply wp_post (h.turn.look quiet_tame (mem_add.mpr (.inr hr)) fun _ => by decide)
  exact fun _ t ht => h.setFs ht.2

lemma enter (h : World I sb k st (r ::ₘ y) ∅ f) :
    wp (onFs (Names.enter r.ip)) Quiet (fun _ t => World I sb t st ({ r with loaded := true } ::ₘ y) ∅ f) k := by
  rw [wp_onFs]
  apply wp_post (h.cons_turn.enter quiet_tame fun _ => by decide)
  rintro _ t ⟨-, -, ht⟩
  rw [← add_cons] at ht
  exact h.setFs ht

section

variable (hI : Lasting I Frame sb.ninodes) (hFrame : Frame fr)

include hI hFrame

lemma linkUp (h : World I sb k st g ∅ f) (hr : r ∈ g) :
    wp (onFs (Names.linkUp r.ip)) Quiet (fun _ t => ∃ f', SameDirs f f' ∧ World I sb t st g ∅ f') k := by
  rw [wp_onFs]
  apply wp_post (h.turn.linkUp quiet_tame (mem_add.mpr (.inr hr)) (fun _ => by decide) (.free ..))
  rintro res t ⟨-, ⟨-, -, ht⟩ | ⟨-, -, ht⟩⟩
  · exact ⟨f, .refl f, h.setFs ht⟩
  · have hChange : Changes false sb.ninodes (st + fr) f _ := .single (.relink r.inum (· + 1))
    exact ⟨_, hChange.sameDirs, h.setFs_changes hI hFrame hChange ht⟩

lemma linkDown (h : World I sb k st g ∅ f) (hr : r ∈ g) :
    wp (onFs (Names.linkDown r.ip)) Quiet (fun _ t => ∃ f', SameDirs f f' ∧ World I sb t st g ∅ f') k := by
  rw [wp_onFs]
  apply wp_post (h.turn.linkDown quiet_tame (mem_add.mpr (.inr hr)) (fun _ => by decide) (.free ..))
  rintro res t ⟨-, ht⟩
  have hChange : Changes false sb.ninodes (st + fr) f _ := .single (.relink r.inum (· - 1))
  exact ⟨_, hChange.sameDirs, h.setFs_changes hI hFrame hChange ht⟩

lemma linkIn {r' : Ref} (h : World I sb k st g ∅ f) (hr : r ∈ g) (hr' : r' ∈ g) (name : Text) :
    wp (onFs (Names.linkIn r.ip r'.ip name)) Quiet (fun _ t => ∃ f', World I sb t st g ∅ f') k := by
  rw [wp_onFs]
  have hMem : r ∈ st + g := mem_add.mpr (.inr hr)
  have hMem' : r' ∈ st + g := mem_add.mpr (.inr hr')
  apply wp_post (h.turn.linkIn quiet_tame hMem hMem' (fun _ => by decide) (h.range r.inum) (.free ..) name)
  rintro res t ⟨hDir, ⟨-, ht⟩ | ⟨-, hAbsent, off, hVacant, ht⟩⟩
  · exact ⟨f, h.setFs ht⟩
  · exact ⟨_, h.setFs_changes hI hFrame (.single (.link rfl r.inum r'.inum off name (h.turn.range hMem') hDir hAbsent hVacant)) ht⟩

lemma iput (h : World I sb k st (r ::ₘ y) ∅ f) (hy : fr ≤ y) :
    wp (onFs (Fs.iput r.ip)) Quiet (fun _ t => ∃ f', SameDirs f f' ∧ World I sb t st y ∅ f') k := by
  rw [wp_onFs]
  apply wp_post (h.cons_turn.iput quiet_tame nofun fun _ _ => ⟨fun _ _ => trivial, trivial, trivial⟩)
  rintro _ t ⟨f', hDrop, ht⟩
  have hSub : ∀ r' ∈ st + fr, r' ∈ st + y := fun r' hr' => mem_of_le (add_le_add_right hy st) hr'
  have hChange : Changes false sb.ninodes (st + fr) f f' := hDrop.changes hSub (h.ip_eq hy)
  exact ⟨f', hChange.sameDirs, h.setFs_changes hI hFrame hChange ht⟩

lemma createAt (h : World I sb k st (r ::ₘ fr) ∅ f) (name : Text) {type : UInt16} (hType : type ≠ 0) (major minor : Int16) :
    wp (onFs (Names.createAt r.ip name type major minor)) Quiet (fun res t =>
      match res with
      | .failed => ∃ f', World I sb t st fr ∅ f'
      | .found ip => ∃ r' : Ref, r'.ip = ip ∧ World I sb t st (r' ::ₘ r ::ₘ fr) ∅ f
      | .made ip => ∃ i f', (f' i).type = type ∧ World I sb t st (⟨ip, i, true⟩ ::ₘ fr) {ip} f') k := by
  rw [wp_onFs]
  apply wp_post (h.cons_turn.createAt quiet_tame (fun _ => by decide) (h.range r.inum) (.free ..) name hType major minor)
  rintro (_ | ip | ip) t ⟨hDir, b, ht⟩
  · obtain ⟨-, f1, f', hFails, hDrop, ht⟩ := ht
    have hDropped : Changes true sb.ninodes (st + fr) f1 f' := hDrop.changes (fun _ hr' => hr') (h.ip_eq le_rfl)
    exact ⟨f', h.setFs_changes hI hFrame ((hFails.changes hType).trans hDropped) ht⟩
  · obtain ⟨off, -, ht⟩ := ht
    rw [← add_cons] at ht
    exact ⟨_, by rfl, h.gain ht⟩
  · obtain ⟨i, off, f', hFree, hAbsent, hVacant, hDrop, ht⟩ := ht
    have hRange := ht.range (mem_cons_self _ _)
    have hDirRange := h.cons_turn.range (mem_cons_self _ _)
    obtain ⟨g, hg⟩ : ∃ g, g = created f r.inum i off name type major minor := ⟨_, rfl⟩
    rw [← hg] at hDrop
    have hMade : Change true sb.ninodes (st + fr) f g := by
      rw [hg]
      exact .create rfl r.inum i off name type major minor hType hFree ⟨hRange.1, hRange.2, hDirRange.2⟩ hDir hAbsent hVacant
    have hDropped : Changes true sb.ninodes (st + fr) g f' :=
      hDrop.changes (fun _ hr' => mem_cons_of_mem hr') (h.ip_eq le_rfl)
    refine ⟨i, f', ?_, h.setFs_changes hI hFrame (.head hMade hDropped) ?_⟩
    · have hNew : (g i).type = type := by rw [hg, created_type hDir hFree, if_pos rfl]
      have hSelf : Changes true sb.ninodes {⟨ip, i, true⟩} g f' := by
        apply hDrop.changes
        · intro r' hr'
          rw [Multiset.mem_singleton.mp hr']
          exact mem_cons_self _ _
        · intro r' hr' hInum
          rw [Multiset.mem_singleton.mp hr'] at hInum
          rw [← hInum, hFree] at hDir
          cases hDir
      have hSame := hSelf.type_eq (Multiset.mem_singleton_self _) (by rw [hNew]; exact hType)
      exact hSame.trans hNew
    · rw [add_cons]
      exact ht

lemma make (h : World I sb k st (r ::ₘ fr) ∅ f) (name : Text) {type : UInt16} (hType : type ≠ 0) (major minor : Int16) :
    wp (onFs (makeAt r.ip name type major minor)) Quiet (fun res t =>
      match res with
      | .failed => ∃ f', World I sb t st fr ∅ f'
      | .found ip => ∃ r' : Ref, r'.ip = ip ∧ World I sb t st (r' ::ₘ r ::ₘ fr) ∅ f
      | .made ip => ∃ (r' : Ref) (f' : Nat → Node), r'.ip = ip ∧ World I sb t st (r' ::ₘ fr) ∅ f') k := by
  unfold makeAt
  rw [onFs_bind]
  apply wp_call (h.createAt hI hFrame name hType major minor)
  rintro (_ | ip | ip) t ht
  · exact wp_val ht
  · exact wp_val ht
  · obtain ⟨i, f', -, ht⟩ := ht
    rw [onFs_bind, wp_bind, wp_onFs]
    apply wp_post (ht.cons_turn.iunlock quiet_tame (mem_cons_self _ _))
    intro _ u hu
    rw [Finset.erase_singleton, ← add_cons] at hu
    exact wp_val ⟨_, f', by rfl, ht.setFs hu⟩

lemma unlinkIn (h : World I sb k st (r ::ₘ y) ∅ f) (hy : fr ≤ y) (name : Text) :
    wp (onFs (Names.unlinkIn r.ip name)) Quiet (fun res t =>
      match res with
      | none => World I sb t st (r ::ₘ y) ∅ f
      | some ip => ∃ (r' : Ref) (f' : Nat → Node), r'.ip = ip ∧ World I sb t st (r' ::ₘ y) ∅ f') k := by
  rw [wp_onFs]
  apply wp_post (h.cons_turn.unlinkIn quiet_tame (fun _ => by decide) (h.range r.inum) (.free ..)
    fun _ _ => ⟨trivial, fun _ => by decide, fun _ => by decide⟩)
  rintro (_ | ip) t ⟨-, ht⟩
  · rw [← add_cons] at ht
    exact h.setFs ht
  · obtain ⟨hDot, hDots, off, i, hNamed, -, -, -, -, -, f', hDrop, ht⟩ := ht
    have hClear : Change true sb.ninodes (st + fr) f _ := .clear rfl r.inum off name ((f i).type = tDir) hNamed ⟨hDot, hDots⟩
    have hSub : ∀ r' ∈ st + fr, r' ∈ (⟨ip, i, true⟩ : Ref) ::ₘ (st + y) := fun r' hr' =>
      mem_cons_of_mem (mem_of_le (add_le_add_right hy st) hr')
    have hDropped : Changes true sb.ninodes (st + fr) _ f' := hDrop.changes hSub (h.ip_eq hy)
    rw [← add_cons] at ht
    exact ⟨_, _, by rfl, h.setFs_changes hI hFrame (.tail (.head hClear hDropped) (.relink i _)) ht⟩

end

/-! ## Sections on the tables -/

lemma tables {u : Kernel} (h : World I sb k st g L f) (hFs : u.fs = k.fs) (hHeld : Held u st f) : World I sb u st g L f :=
  ⟨hFs ▸ h.turn, hHeld, h.used, h.root, h.range, h.more⟩

lemma pipeclose (h : World I sb k st g L f) (me : Pid) (pi : Nat) (writable : Bool) :
    wp (Xv6K230.pipeclose me pi writable) Quiet (fun _ t => World I sb t st g L f) k := by
  have hWake : ∀ (chan : Chan) (j : Pid) (p : Proc), (wakeOne me chan j p).cwd = p.cwd := by
    intro chan j p
    unfold wakeOne
    split <;> rfl
  unfold Xv6K230.pipeclose wakeup Vm.kfree Vm.memset
  simp only [wp_bind, wp_ite, wp_update, wp_read, wp_onMem, wp_pure, wp_stop]
  refine ⟨fun _ => ⟨fun _ => ⟨fun _ => by decide, fun _ => ?_⟩, fun _ => ?_⟩, fun _ => ⟨fun _ => ⟨fun _ => by decide, fun _ => ?_⟩, fun _ => ?_⟩⟩
  all_goals exact h.tables rfl (h.held.congr rfl fun p => hWake _ p _)

lemma filealloc (h : World I sb k st g L f) :
    wp Xv6K230.filealloc Quiet (fun res t => World I sb t st g L f ∧
      ∀ x, res = some x → (t.ftable x).ref = 1 ∧ ((t.ftable x).type = .none ∨ (t.ftable x).type = .pipe)) k := by
  unfold Xv6K230.filealloc
  rw [wp_bind, wp_read]
  cases hFind : (List.finRange nfile).find? fun x => (k.ftable x).ref == 0 with
  | none => exact wp_val ⟨h, nofun⟩
  | some x =>
    have hZero : (k.ftable x).ref = 0 := by simpa using List.find?_some hFind
    simp only [wp_bind, wp_modFile, wp_pure]
    obtain ⟨m, rest, hst, hm, hSet⟩ := h.held.file x
    cases hm with
    | inode i kind opened => omega
    | none kind =>
      refine ⟨h.tables rfl ?_, ?_⟩
      · rw [hst]
        exact hSet _ 0 (.none kind)
      · rintro _ ⟨⟩
        rw [setFile_ftable_same]
        exact ⟨rfl, kind⟩

lemma setOfile (h : World I sb k st g L f) (me : Pid) (fd : Fd) (v : Option Fp) :
    wp (Xv6K230.setOfile me fd v) Quiet (fun _ t => World I sb t st g L f ∧ t.ftable = k.ftable) k := by
  unfold Xv6K230.setOfile
  rw [wp_modProc]
  refine ⟨h.tables rfl (h.held.congr rfl fun p => ?_), rfl⟩
  by_cases hp : p = me
  · rw [hp, setProc_proc_same]
  · rw [setProc_proc_of_ne _ hp]

lemma fdalloc (h : World I sb k st g L f) (me : Pid) (x : Fp) :
    wp (Xv6K230.fdalloc me x) Quiet (fun _ t => World I sb t st g L f ∧ t.ftable = k.ftable) k := by
  unfold Xv6K230.fdalloc
  rw [wp_bind, wp_getProc]
  split
  · exact wp_val ⟨h, rfl⟩
  · apply wp_call (h.setOfile me _ _)
    exact fun _ t ht => wp_val ht

lemma filedup (h : World I sb k st g L f) (x : Fp) : wp (Xv6K230.filedup x) Quiet (fun _ t => World I sb t st g L f) k := by
  unfold Xv6K230.filedup
  rw [wp_bind, wp_getFile, wp_ite]
  constructor
  · exact fun _ => (wp_stop _).mpr (by decide)
  · intro hRef
    rw [wp_modFile]
    obtain ⟨m, rest, hst, hm, hSet⟩ := h.held.file x
    refine h.tables rfl ?_
    rw [hst]
    exact hSet _ m (hm.ref (by omega))

lemma dup (h : World I sb k st g L f) (me : Pid) (fd : Int32) : wp (sysDup me fd) Quiet (fun _ t => World I sb t st g L f) k := by
  unfold sysDup
  rw [argfd_eq, wp_bind, wp_read]
  cases descriptor (k.proc me) fd with
  | none => exact wp_val h
  | some p =>
    apply wp_call (h.fdalloc me p.2)
    rintro (_ | fd) t ⟨ht, -⟩
    · exact wp_val ht
    · apply wp_call (ht.filedup p.2)
      exact fun _ u hu => wp_val hu

lemma dupFd (h : World I sb k st g L f) (me np : Pid) (fd : Fd) :
    wp (dupOfile me np fd) Quiet (fun _ t => World I sb t st g L f) k := by
  unfold dupOfile
  rw [wp_bind, wp_getProc]
  cases (k.proc me).ofile fd with
  | none => exact wp_val h
  | some x =>
    apply wp_call (h.filedup x)
    intro _ t ht
    exact wp_post (ht.setOfile np fd (some x)) fun _ u hu => hu.1

lemma dupCwd (h : World I sb k st g ∅ f) (me np : Pid) :
    wp (Names.dupCwd me np) Quiet (fun _ t => ∃ st', World I sb t st' g ∅ f) k := by
  unfold Names.dupCwd
  rw [wp_bind, wp_getProc]
  obtain ⟨m, rest, hst, hCwd, -⟩ := h.held.cwd me
  cases hCwd with
  | none hNone =>
    rw [hNone]
    exact (wp_stop _).mpr (by decide)
  | some r hSome =>
    rw [hSome]
    have hr : r ∈ st := by simp [hst]
    rw [wp_bind, wp_onFs]
    apply wp_post (h.turn.idup (mem_add.mpr (.inl hr)))
    rintro _ t ⟨rfl, ht⟩
    rw [wp_modProc]
    -- the old directory of the new process is no longer in a table
    obtain ⟨m', rest', hst', hm', hSet⟩ := h.held.cwd np
    refine ⟨⟨r.ip, r.inum, false⟩ ::ₘ st, ?_, ?_, ?_, h.root, h.range, h.more⟩
    · rw [cons_add]
      exact ht
    · have hHeld := (hSet { k.proc np with cwd := some r.ip } _ (.some ⟨r.ip, r.inum, false⟩ rfl)).lose m'
      rw [add_left_comm, ← hst', singleton_add] at hHeld
      exact hHeld.congr rfl fun _ => rfl
    · intro r' hr'
      rcases mem_cons.mp hr' with rfl | hr'
      · exact h.used r hr
      · exact h.used r' hr'

lemma dropFile (h : World I sb k st g L f) (me : Pid) (x : Fp) :
    wp (Names.dropFile me x) Quiet (fun res t =>
      match res with
      | none => World I sb t st g L f
      | some ip => ((k.ftable x).type = .inode ∨ (k.ftable x).type = .device) ∧ ∃ (r : Ref) (rest : Multiset Ref), r.ip = ip ∧
          World I sb t rest (r ::ₘ g) L f) k := by
  unfold Names.dropFile
  rw [wp_bind, wp_getFile, wp_ite]
  obtain ⟨m, rest, hst, hm, hSet⟩ := h.held.file x
  constructor
  · exact fun _ => (wp_stop _).mpr (by decide)
  · intro hRef
    rw [wp_ite]
    constructor
    · intro hMore
      simp only [wp_bind, wp_modFile, wp_pure]
      refine h.tables rfl ?_
      rw [hst]
      exact hSet _ m (hm.ref hMore)
    · intro _
      simp only [wp_bind, wp_modFile]
      have hEmpty := hSet { k.ftable x with ref := 0, type := .none } 0 (.none (.inl rfl))
      cases hm with
      | none kind =>
        have h' := h.tables (u := k.setFile x { k.ftable x with ref := 0, type := .none }) rfl (hst ▸ hEmpty)
        rcases kind with hKind | hKind
        · simp only [hKind]
          exact wp_val h'
        · simp only [hKind]
          apply wp_call (h'.pipeclose me _ _)
          exact fun _ t ht => wp_val ht
      | inode i kind opened plain =>
        have hWorld : World I sb (k.setFile x { k.ftable x with ref := 0, type := .none }) rest (⟨(k.ftable x).ip, i, true⟩ ::ₘ g) L f := by
          have hTurn := h.turn
          rw [hst, singleton_add] at hTurn
          refine ⟨?_, by simpa using hEmpty, fun r hr => h.used r ?_, h.root, h.range, h.more⟩
          · rw [add_cons, ← cons_add]
            exact hTurn
          · rw [hst]
            exact mem_add.mpr (.inr hr)
        rcases kind with hKind | hKind
        · simp only [hKind, wp_pure]
          exact ⟨by simp, _, rest, by rfl, hWorld⟩
        · simp only [hKind, wp_pure]
          exact ⟨by simp, _, rest, by rfl, hWorld⟩

lemma close (h : World I sb k st g ∅ f) (me : Pid) (fd : Int32) :
    wp (closeFd me fd) Quiet (fun res t =>
      match res with
      | some (some ip) => ∃ (r : Ref) (rest : Multiset Ref), r.ip = ip ∧ World I sb t rest (r ::ₘ g) ∅ f
      | _ => World I sb t st g ∅ f) k := by
  unfold closeFd
  rw [argfd_eq, wp_bind, wp_read]
  cases descriptor (k.proc me) fd with
  | none => exact wp_val h
  | some p =>
    obtain ⟨fd, x⟩ := p
    apply wp_call (h.setOfile me fd none)
    rintro _ t ⟨ht, -⟩
    rw [wp_bind]
    apply wp_post (ht.dropFile me x)
    rintro (_ | ip) u hu
    · exact wp_val hu
    · exact wp_val hu.2

lemma exchange {u : Kernel} {r0 : Ref} {rest : Multiset Ref} (h : World I sb k (r0 ::ₘ rest) (r ::ₘ y) ∅ f) (hLoaded : r.loaded = true)
    (hFs : u.fs = k.fs) (hHeld : Held u (r ::ₘ rest) f) : World I sb u (r ::ₘ rest) (r0 ::ₘ y) ∅ f := by
  have hSame : r0 ::ₘ rest + r ::ₘ y = r ::ₘ rest + r0 ::ₘ y := by
    rw [add_cons, cons_add, Multiset.cons_swap, ← cons_add, ← add_cons]
  have hMem : r ∈ r0 ::ₘ rest + r ::ₘ y := mem_add.mpr (.inr (mem_cons_self _ _))
  refine ⟨?_, hHeld, fun r' hr' => ?_, h.root, h.range, h.more⟩
  · rw [hFs, ← hSame]
    exact h.turn
  · rcases mem_cons.mp hr' with rfl | hr'
    · exact h.turn.allocated hMem (.inr hLoaded)
    · exact h.used r' (mem_cons_of_mem hr')

lemma chdir (hI : Lasting I Frame sb.ninodes) (hFrame : Frame fr) (h : World I sb k st (r ::ₘ y) ∅ f) (hLoaded : r.loaded = true)
    (hy : fr ≤ y) (me : Pid) : wp (chdirTo me r.ip) Quiet (fun _ t => ∃ st' f', SameDirs f f' ∧ World I sb t st' y ∅ f') k := by
  unfold chdirTo
  rw [wp_bind, wp_getProc]
  obtain ⟨m, rest, hst, hCwd, hSet⟩ := h.held.cwd me
  cases hCwd with
  | none hNone =>
    rw [hNone]
    exact (wp_stop _).mpr (by decide)
  | some r0 hSome =>
    rw [hSome]
    rw [singleton_add] at hst
    subst hst
    have hHeld := hSet { k.proc me with cwd := some r.ip } {r} (.some r rfl)
    rw [singleton_add] at hHeld
    have hSwap := h.exchange (u := k.setProc me { k.proc me with cwd := some r.ip }) hLoaded rfl hHeld
    have hIput := hSwap.iput hI hFrame hy
    rw [wp_onFs] at hIput
    rw [wp_bind, wp_onFs]
    apply wp_post hIput
    rintro _ t ⟨f', ht⟩
    rw [wp_modProc]
    exact ⟨_, f', ht⟩

lemma give {u : Kernel} (h : World I sb k st (r ::ₘ y) L f) (hLoaded : r.loaded = true) (hFs : u.fs = k.fs)
    (hHeld : Held u (r ::ₘ st) f) : World I sb u (r ::ₘ st) y L f := by
  refine ⟨?_, hHeld, fun r' hr' => ?_, h.root, h.range, h.more⟩
  · rw [hFs, cons_add]
    exact h.cons_turn
  · rcases mem_cons.mp hr' with rfl | hr'
    · exact h.cons_turn.allocated (mem_cons_self _ _) (.inr hLoaded)
    · exact h.used r' hr'

lemma unlock (h : World I sb k st g {r.ip} f) (hr : r ∈ st + g) :
    wp (onFs (iunlock r.ip)) Quiet (fun _ t => World I sb t st g ∅ f) k := by
  rw [wp_onFs]
  apply wp_post (h.turn.iunlock quiet_tame hr)
  intro _ t ht
  rw [Finset.erase_singleton] at ht
  exact h.setFs ht

lemma trunc (hI : Lasting I Frame sb.ninodes) (hFrame : Frame fr) (h : World I sb k st g {r.ip} f) (hr : r ∈ st + g)
    (hFile : (f r.inum).type ≠ tDir) :
    wp (onFs (itrunc r.ip)) Quiet (fun _ t => ∃ f', SameDirs f f' ∧ World I sb t st g {r.ip} f') k := by
  rw [wp_onFs]
  apply wp_post (h.turn.itrunc quiet_tame hr (Finset.mem_singleton_self _) (fun _ _ => trivial) trivial trivial)
  intro _ t ht
  have hChange : Changes false sb.ninodes (st + fr) f _ := .single (.rewrite r.inum 0 (fun _ => 0) hFile)
  exact ⟨_, hChange.sameDirs, h.setFs_changes hI hFrame hChange ht⟩

lemma fileclose_new (h : World I sb k st g L f) (me : Pid) {x : Fp}
    (hType : (k.ftable x).type = .none ∨ (k.ftable x).type = .pipe) :
    wp (Xv6K230.fileclose me x) Quiet (fun _ t => World I sb t st g L f) k := by
  rw [fileclose_eq]
  apply wp_call (h.dropFile me x)
  rintro (_ | ip) t ht
  · exact wp_val ht
  · rcases hType with hType | hType <;> simp [hType] at ht

lemma setFile_setFile (x : Fp) (v w : File) : (k.setFile x v).setFile x w = k.setFile x w := by
  unfold Kernel.setFile
  congr 1
  funext j
  by_cases hj : j = x <;> simp [hj]

lemma openFile (h : World I sb k st (r ::ₘ y) L f) (hLoaded : r.loaded = true) {x : Fp}
    (hNew : (k.ftable x).type = .none ∨ (k.ftable x).type = .pipe) {v : File} (hKind : v.type = .inode ∨ v.type = .device) (hRef : 0 < v.ref)
    (hip : v.ip = r.ip) (hPlain : v.writable = true → (f r.inum).type ≠ tDir) : World I sb (k.setFile x v) (r ::ₘ st) y L f := by
  refine h.give hLoaded rfl ?_
  obtain ⟨m, rest, hst, hm, hSet⟩ := h.held.file x
  cases hm with
  | inode i kind => rcases hNew with hNew | hNew <;> simp [hNew] at kind
  | none _ =>
    have hHolds : FileHolds f v {r} := by
      have hSame : r = ⟨v.ip, r.inum, true⟩ := by rw [hip, ← hLoaded]
      rw [hSame]
      exact .inode r.inum hKind hRef fun _ => hPlain
    have hHeld := hSet v _ hHolds
    rw [zero_add] at hst
    rw [← hst, singleton_add] at hHeld
    exact hHeld

lemma openLocked (hI : Lasting I Frame sb.ninodes) (hFrame : Frame fr) (h : World I sb k st (r ::ₘ y) {r.ip} f)
    (hLoaded : r.loaded = true) (me : Pid) (omode : Nat)
    (hPlain : (omode &&& oWronly ≠ 0 ∨ omode &&& oRdwr ≠ 0) → (f r.inum).type ≠ tDir) :
    wp (Names.openLocked me r.ip omode) Quiet (fun res t =>
      match res with
      | none => World I sb t st (r ::ₘ y) ∅ f
      | some _ => ∃ f', SameDirs f f' ∧ World I sb t (r ::ₘ st) y ∅ f') k := by
  have hMem : r ∈ st + r ::ₘ y := mem_add.mpr (.inr (mem_cons_self _ _))
  have hMem' : r ∈ r ::ₘ st + y := mem_add.mpr (.inl (mem_cons_self _ _))
  unfold Names.openLocked
  rw [← onFs_getInode, wp_bind, wp_onFs]
  apply wp_post (h.turn.getInode hMem (Finset.mem_singleton_self _))
  rintro i s ⟨rfl, -, -, hType, -⟩
  change wp _ _ _ k
  rw [wp_ite]
  constructor
  · intro _
    apply wp_call (h.unlock hMem)
    exact fun _ t ht => wp_val ht
  · intro _
    apply wp_call h.filealloc
    rintro (_ | x) t ⟨ht, hNew⟩
    · apply wp_call (ht.unlock hMem)
      exact fun _ u hu => wp_val hu
    · obtain ⟨hRef, hNone⟩ := hNew x rfl
      apply wp_call (ht.fdalloc me x)
      rintro (_ | fd) u ⟨hu, hTable⟩
      · apply wp_call (hu.fileclose_new me (by rw [hTable]; exact hNone))
        intro _ v hv
        apply wp_call (hv.unlock hMem)
        exact fun _ w hw => wp_val hw
      · -- the new file is open before the inode is cut and unlocked
        have hEnd : ∀ v, World I sb v (r ::ₘ st) y {r.ip} f → wp (do
            if omode &&& oTrunc ≠ 0 ∧ i.di.type = tFile then onFs (itrunc r.ip)
            onFs (iunlock r.ip)
            return some fd) Quiet (fun res w =>
              match res with
              | none => World I sb w st (r ::ₘ y) ∅ f
              | some _ => ∃ f', SameDirs f f' ∧ World I sb w (r ::ₘ st) y ∅ f') v := by
          intro v hv
          rw [wp_ite]
          constructor
          · rintro ⟨-, hFile⟩
            apply wp_call (hv.trunc hI hFrame hMem' (by rw [← hType, hFile]; decide))
            rintro _ w ⟨f', hSame, hw⟩
            apply wp_call (hw.unlock hMem')
            exact fun _ _ hw' => wp_val ⟨f', hSame, hw'⟩
          · intro _
            apply wp_call (hv.unlock hMem')
            exact fun _ _ hw => wp_val ⟨f, .refl f, hw⟩
        have hOpen : ∀ v : File, v.type = .inode ∨ v.type = .device → v.ref = 1 → v.ip = r.ip →
            (v.writable = true → omode &&& oWronly ≠ 0 ∨ omode &&& oRdwr ≠ 0) → World I sb (u.setFile x v) (r ::ₘ st) y {r.ip} f :=
          fun v hKind hOne hip hMode => hu.openFile hLoaded (by rw [hTable]; exact hNone) hKind (by omega) hip fun hw => hPlain (hMode hw)
        have hRef' : (u.ftable x).ref = 1 := by rw [hTable, hRef]
        rw [wp_ite]
        constructor
        · intro _
          rw [wp_bind, wp_modFile, wp_bind, wp_modFile, setFile_setFile, setFile_ftable_same]
          exact hEnd _ (hOpen _ (.inr rfl) hRef' rfl of_decide_eq_true)
        · intro _
          rw [wp_bind, wp_modFile, wp_bind, wp_modFile, setFile_setFile, setFile_ftable_same]
          exact hEnd _ (hOpen _ (.inl rfl) hRef' rfl of_decide_eq_true)

lemma openAt (hI : Lasting I Frame sb.ninodes) (hFrame : Frame fr) (h : World I sb k st (r ::ₘ y) ∅ f) (me : Pid) (omode : Nat) :
    wp (Names.openAt me r.ip omode) Quiet (fun res t =>
      match res with
      | none => ∃ r' : Ref, r'.ip = r.ip ∧ World I sb t st (r' ::ₘ y) ∅ f
      | some _ => ∃ st' f', SameDirs f f' ∧ World I sb t st' y ∅ f') k := by
  unfold Names.openAt
  rw [wp_bind, wp_onFs]
  apply wp_post (h.cons_turn.ilock quiet_tame (mem_cons_self _ _) fun _ => by decide)
  rintro _ s ⟨-, -, hs⟩
  have hs := hs.load (Finset.mem_insert_self _ _) true
  rw [← add_cons, insert_empty_eq] at hs
  obtain ⟨r', hr'⟩ : ∃ r' : Ref, r' = { r with loaded := true } := ⟨_, rfl⟩
  have hip : r.ip = r'.ip := by rw [hr']
  rw [← hr', hip] at hs
  have ht : World I sb (k.setFs s) st (r' ::ₘ y) {r'.ip} f := h.setFs hs
  have hMem : r' ∈ st + r' ::ₘ y := mem_add.mpr (.inr (mem_cons_self _ _))
  rw [hip, ← onFs_getInode, wp_bind, wp_onFs]
  apply wp_post (ht.turn.getInode hMem (Finset.mem_singleton_self _))
  rintro i s ⟨rfl, -, -, hType, -⟩
  change wp _ _ _ (k.setFs s)
  rw [wp_ite]
  constructor
  · intro hAdmits
    rw [hType] at hAdmits
    apply wp_post (ht.openLocked hI hFrame (by rw [hr']) me omode hAdmits.plain)
    rintro (_ | fd) u hu
    · exact ⟨r', rfl, hu⟩
    · exact ⟨_, hu⟩
  · intro _
    apply wp_call (ht.unlock hMem)
    exact fun _ u hu => wp_val ⟨r', rfl, hu⟩

lemma openNew (hI : Lasting I Frame sb.ninodes) (hFrame : Frame fr) (h : World I sb k st (r ::ₘ fr) ∅ f) (me : Pid)
    (name : Text) (omode : Nat) :
    wp (Names.openNew me r.ip name omode) Quiet (fun res t =>
      match res with
      | .failed => ∃ f', World I sb t st fr ∅ f'
      | .found ip => ∃ r' : Ref, r'.ip = ip ∧ World I sb t st (r' ::ₘ r ::ₘ fr) ∅ f
      | .refused ip => ∃ (r' : Ref) (f' : Nat → Node), r'.ip = ip ∧ World I sb t st (r' ::ₘ fr) ∅ f'
      | .opened _ => ∃ st' f', World I sb t st' fr ∅ f') k := by
  unfold Names.openNew
  apply wp_call (h.createAt hI hFrame name (by decide) 0 0)
  rintro (_ | ip | ip) t ht
  · exact wp_val ht
  · exact wp_val ht
  · obtain ⟨i, f', hType, ht⟩ := ht
    have hOpen := ht.openLocked hI hFrame rfl me omode fun _ => by rw [hType]; decide
    apply wp_call hOpen
    rintro (_ | fd) u hu
    · exact wp_val ⟨_, f', by rfl, hu⟩
    · obtain ⟨f'', -, hu⟩ := hu
      exact wp_val ⟨_, f'', hu⟩

lemma setOff (h : World I sb k st g L f) (x : Fp) (n : Nat) : World I sb (k.setFile x { k.ftable x with off := n }) st g L f := by
  obtain ⟨m, rest, hst, hm, hSet⟩ := h.held.file x
  refine h.tables rfl ?_
  rw [hst]
  exact hSet _ m (hm.off n)

lemma file (h : World I sb k st g L f) (me : Pid) (fd : Int32) :
    wp (fileAt me fd) Quiet (fun _ t => World I sb t st g L f) k := by
  unfold fileAt
  rw [argfd_eq, wp_bind, wp_read]
  cases descriptor (k.proc me) fd with
  | none => exact wp_val h
  | some p =>
    rw [wp_bind, wp_getFile]
    exact wp_val h

lemma write (hI : Lasting I Frame sb.ninodes) (hFrame : Frame fr) (h : World I sb k st g ∅ f) (me : Pid) (fd : Int32)
    (src : Offset.Source) (n : Nat) : wp (writeAt me fd src n) Quiet (fun _ t => ∃ f', SameDirs f f' ∧ World I sb t st g ∅ f') k := by
  unfold writeAt
  rw [argfd_eq, wp_bind, wp_read]
  cases descriptor (k.proc me) fd with
  | none => exact wp_val ⟨f, .refl f, h⟩
  | some p =>
    obtain ⟨fd, x⟩ := p
    rw [wp_bind, wp_getFile, wp_ite]
    constructor
    · rintro ⟨hWritable, hInode⟩
      obtain ⟨m, rest, hst, hm, hSet⟩ := h.held.file x
      cases hm with
      | none kind => rcases kind with kind | kind <;> simp [hInode] at kind
      | inode i kind opened plain =>
        obtain ⟨r, hr⟩ : ∃ r : Ref, r = ⟨(k.ftable x).ip, i, true⟩ := ⟨_, rfl⟩
        have hip : (k.ftable x).ip = r.ip := by rw [hr]
        have hFile : (f r.inum).type ≠ tDir := hr ▸ plain hInode hWritable
        have hMem : r ∈ st + g := by simp [hst, hr]
        unfold Offset.filewriteChunk
        rw [wp_bind, wp_getFile, hip, wp_bind, wp_onFs]
        apply wp_post (h.turn.ilock quiet_tame hMem fun _ => by decide)
        rintro _ s ⟨-, -, hs⟩
        rw [insert_empty_eq] at hs
        have ht := h.setFs hs
        rw [wp_bind, wp_getFile, Kernel.setFs_ftable, hip, wp_bind, wp_onFs]
        apply wp_post (ht.turn.writei quiet_tame hMem (Finset.mem_singleton_self _) (fun _ _ => trivial) trivial trivial src.copyin)
        rintro res s' ⟨size, data, hs'⟩
        have hChange : Changes false sb.ninodes (st + fr) f _ := .single (.rewrite r.inum size data hFile)
        have hSame := hChange.sameDirs
        have hu := ht.setFs_changes hI hFrame hChange hs'
        rw [wp_ite]
        constructor
        · intro _
          rw [wp_bind, wp_modFile]
          apply wp_call ((hu.setOff x _).unlock hMem)
          exact fun _ w hw => wp_val ⟨_, hSame, hw⟩
        · intro _
          apply wp_call (hu.unlock hMem)
          exact fun _ w hw => wp_val ⟨_, hSame, hw⟩
    · exact fun _ => wp_val ⟨f, .refl f, h⟩

end World

end Xv6K230.Names
