import Xv6K230.Names.Tables

/-! # Processes that share the name space

Every call is safe in the sense of the library: whatever other processes have done between its sections, it finds the
references that it holds, and it ends with none.
-/

namespace Xv6K230.Names

open Multiset (cons_add cons_swap countP_zero le_add_left mem_add mem_cons_self mem_sum)
open Fs Prog Code

def Inv (I : (Nat → Node) → Prop) (sb : Superblock) (k : Kernel) (g : Multiset Ref) : Prop := ∃ st f, World I sb k st g ∅ f

/-- The sections that call `dirlink`, and that of `sys_unlink`. -/
def Section.naming {β : Type} : Section β → Bool
  | .make .. | .openNew .. | .linkIn .. | .unlinkIn .. => true
  | _ => false

def Section.Keeps {β : Type} (l : Section β) (f f' : Nat → Node) : Prop := l.naming = true ∨ SameDirs f f'

def contract (I : (Nat → Node) → Prop) (Frame : Multiset Ref → Prop) (sb : Superblock) : Contract Section Stop Kernel (Multiset Ref) where
  inv := Inv I sb
  frame := Frame
  allowed _ _ _ := True
  stops := Quiet
  does _ l k t := l.Keeps k.fs.files t.fs.files

abbrev Works (I : (Nat → Node) → Prop) (Frame : Multiset Ref → Prop) (sb : Superblock) {α : Type} (Q : α → Multiset Ref → Prop)
    (c : Coded α) (g : Multiset Ref) : Prop :=
  Safe Section.run (contract I Frame sb) Q c g

section

variable {I : (Nat → Node) → Prop} {Frame : Multiset Ref → Prop} {sb : Superblock} {x : Multiset Ref} {r r' : Ref} {α : Type}
  {Q : α → Multiset Ref → Prop}

lemma Works.of_world {l : Section α} {g : Multiset Ref} (h : ∀ k st f fr, Frame fr → World I sb k st (g + fr) ∅ f →
    wp l.run Quiet (fun a t => ∃ g' st' f', l.Keeps f f' ∧ World I sb t st' (g' + fr) ∅ f' ∧ Q a g') k) :
    Works I Frame sb Q (sect l) g := by
  apply Safe.section_
  rintro k fr hFrame ⟨st, f, hk⟩ -
  apply wp_post (h k st f fr hFrame hk)
  rintro a t ⟨g', st', f', hKeeps, ht, hQ⟩
  refine ⟨?_, g', ⟨st', f', ht⟩, hQ⟩
  change l.Keeps k.fs.files t.fs.files
  rw [hk.turn.files, ht.turn.files]
  exact hKeeps

lemma Works.of_same {l : Section α} {g : Multiset Ref} (h : ∀ k st f fr, World I sb k st (g + fr) ∅ f →
    wp l.run Quiet (fun a t => ∃ g' st', World I sb t st' (g' + fr) ∅ f ∧ Q a g') k) : Works I Frame sb Q (sect l) g := by
  apply Works.of_world
  intro k st f fr _ hk
  apply wp_post (h k st f fr hk)
  rintro a t ⟨g', st', ht, hQ⟩
  exact ⟨g', st', f, .inr (.refl f), ht, hQ⟩

lemma works_start (me : Pid) (absolute : Bool) :
    Works I Frame sb (fun ip g => ∃ r : Ref, r.ip = ip ∧ g = r ::ₘ x) (sect (.start me absolute)) x := by
  apply Works.of_same
  intro k st f fr h
  apply wp_post (h.start me absolute)
  rintro ip t ⟨r, hr, ht⟩
  rw [← cons_add] at ht
  exact ⟨_, st, ht, r, hr, rfl⟩

lemma works_step (name : Text) (last : Bool) :
    Works I Frame sb (fun res g =>
      match res with
      | some (some next) => ∃ r' : Ref, r'.ip = next ∧ g = r' ::ₘ r ::ₘ x
      | _ => g = r ::ₘ x) (sect (.step r.ip name last)) (r ::ₘ x) := by
  apply Works.of_same
  intro k st f fr h
  apply wp_post (h.step (mem_add.mpr (.inl (mem_cons_self _ _))) name last)
  rintro (_ | _ | next) t ht
  · exact ⟨_, st, ht, rfl⟩
  · exact ⟨_, st, ht, rfl⟩
  · obtain ⟨r', hr', ht⟩ := ht
    rw [← cons_add] at ht
    exact ⟨_, st, ht, r', hr', rfl⟩

lemma works_look : Works I Frame sb (fun _ g => g = r ::ₘ x) (sect (.look r.ip)) (r ::ₘ x) := by
  apply Works.of_same
  intro k st f fr h
  apply wp_post (h.look (mem_add.mpr (.inl (mem_cons_self _ _))))
  exact fun _ t ht => ⟨_, st, ht, rfl⟩

lemma works_enter : Works I Frame sb (fun _ g => g = { r with loaded := true } ::ₘ x) (sect (.enter r.ip)) (r ::ₘ x) := by
  apply Works.of_same
  intro k st f fr h
  rw [cons_add] at h
  apply wp_post h.enter
  intro _ t ht
  rw [← cons_add] at ht
  exact ⟨_, st, ht, rfl⟩

variable (hI : Lasting I Frame sb.ninodes)

include hI

lemma works_iput : Works I Frame sb (fun _ g => g = x) (sect (.iput r.ip)) (r ::ₘ x) := by
  apply Works.of_world
  intro k st f fr hFrame h
  rw [cons_add] at h
  apply wp_post (h.iput hI hFrame (le_add_left _ _))
  rintro _ t ⟨f', hSame, ht⟩
  exact ⟨x, st, f', .inr hSame, ht, rfl⟩

lemma works_walk (parent : Bool) : ∀ (fuel : Nat) (r : Ref) (path : Text), path.length < fuel →
    Works I Frame sb (fun res g =>
      match res with
      | none => g = x
      | some (ip, _) => ∃ r' : Ref, r'.ip = ip ∧ g = r' ::ₘ x) (walkCode parent fuel r.ip path) (r ::ₘ x) := by
  intro fuel
  induction fuel with
  | zero => exact fun _ _ h => absurd h (Nat.not_lt_zero _)
  | succ fuel ih =>
    intro r path hFuel
    unfold walkCode
    cases hSkip : skipelem path with
    | none =>
      cases parent with
      | true =>
        apply (works_iput hI).bind
        rintro _ g rfl
        exact .pure rfl
      | false => exact .pure ⟨r, rfl, rfl⟩
    | some p =>
      obtain ⟨name, rest⟩ := p
      have hLt := skipelem_lt path hSkip
      apply (works_step name _).bind
      rintro (_ | _ | next) g hg
      · obtain rfl := hg
        apply (works_iput hI).bind
        rintro _ g rfl
        exact .pure rfl
      · obtain rfl := hg
        exact .pure ⟨r, rfl, rfl⟩
      · obtain ⟨r', rfl, rfl⟩ := hg
        rw [cons_swap]
        apply (works_iput hI).bind
        rintro _ g rfl
        exact ih r' rest (by omega)

lemma works_path (me : Pid) (parent : Bool) (path : Text) :
    Works I Frame sb (fun res g =>
      match res with
      | none => g = x
      | some (ip, _) => ∃ r : Ref, r.ip = ip ∧ g = r ::ₘ x) (pathCode me parent path) x := by
  apply (works_start me _).bind
  rintro _ g ⟨r, rfl, rfl⟩
  exact works_walk hI parent (path.length + 1) r path (Nat.lt_succ_self _)

lemma works_last (a : α) : Works I Frame sb (fun _ g => g = x) (do sect (.iput r.ip); return a) (r ::ₘ x) := by
  apply (works_iput hI).bind
  rintro _ g rfl
  exact .pure rfl

abbrev Made.Held (r : Ref) (g : Multiset Ref) : Made → Prop
  | .failed => g = 0
  | .found ip => ∃ r' : Ref, r'.ip = ip ∧ g = r' ::ₘ r ::ₘ 0
  | .made ip => ∃ r' : Ref, r'.ip = ip ∧ g = r' ::ₘ 0

abbrev New.Held (r : Ref) (g : Multiset Ref) : New → Prop
  | .failed => g = 0
  | .found ip => ∃ r' : Ref, r'.ip = ip ∧ g = r' ::ₘ r ::ₘ 0
  | .refused ip => ∃ r' : Ref, r'.ip = ip ∧ g = r' ::ₘ 0
  | .opened _ => g = 0

abbrev HeldUnopened {α : Type} (r : Ref) (x g : Multiset Ref) : Option α → Prop
  | none => ∃ r' : Ref, r'.ip = r.ip ∧ g = r' ::ₘ x
  | some _ => g = x

abbrev HeldUnlinked (r : Ref) (g : Multiset Ref) : Option Ip → Prop
  | none => g = r ::ₘ 0
  | some ip => ∃ r' : Ref, r'.ip = ip ∧ g = r' ::ₘ 0

lemma works_makeCode (me : Pid) (path : Text) {type : UInt16} (hType : type ≠ 0) (major minor : Int16) :
    Works I Frame sb (fun _ g => g = 0) (makeCode me path type major minor) 0 := by
  apply (works_path hI me true path).bind
  rintro (_ | ⟨dp, name⟩) g hg
  · exact .pure hg
  · obtain ⟨r, rfl, rfl⟩ := hg
    have hMake : Works I Frame sb (fun res g => Made.Held r g res) (sect (.make r.ip name type major minor)) (r ::ₘ 0) := by
      apply Works.of_world
      intro k st f fr hFrame h
      rw [cons_add, zero_add] at h
      apply wp_post (h.make hI hFrame name hType major minor)
      rintro (_ | ip | ip) t ht
      · obtain ⟨f', ht⟩ := ht
        exact ⟨0, st, f', .inl rfl, by rwa [zero_add], rfl⟩
      · obtain ⟨r', hr', ht⟩ := ht
        exact ⟨r' ::ₘ r ::ₘ 0, st, f, .inl rfl, by rwa [cons_add, cons_add, zero_add], r', hr', rfl⟩
      · obtain ⟨r', f', hr', ht⟩ := ht
        exact ⟨r' ::ₘ 0, st, f', .inl rfl, by rwa [cons_add, zero_add], r', hr', rfl⟩
    apply hMake.bind
    rintro (_ | ip | ip) g hg
    · exact .pure hg
    · obtain ⟨r', rfl, rfl⟩ := hg
      rw [cons_swap]
      apply (works_iput hI).bind
      rintro _ g rfl
      apply works_look.bind
      rintro _ g rfl
      exact works_last hI _
    · obtain ⟨r', rfl, rfl⟩ := hg
      exact works_last hI _

lemma works_openExisting (me : Pid) (omode : Nat) : Works I Frame sb (fun _ g => g = x) (openExisting me r.ip omode) (r ::ₘ x) := by
  have hOpen : Works I Frame sb (fun res g => HeldUnopened r x g res) (sect (.openAt me r.ip omode)) (r ::ₘ x) := by
    apply Works.of_world
    intro k st f fr hFrame h
    rw [cons_add] at h
    apply wp_post (h.openAt hI hFrame me omode)
    rintro (_ | fd) t ht
    · obtain ⟨r', hr', ht⟩ := ht
      exact ⟨r' ::ₘ x, st, f, .inr (.refl f), by rwa [cons_add], r', hr', rfl⟩
    · obtain ⟨st', f', hSame, ht⟩ := ht
      exact ⟨x, st', f', .inr hSame, ht, rfl⟩
  apply hOpen.bind
  rintro (_ | fd) g hg
  · obtain ⟨r', hr', rfl⟩ := hg
    rw [← hr']
    exact works_last hI _
  · exact .pure hg

lemma works_openCode (me : Pid) (path : Text) (omode : Nat) : Works I Frame sb (fun _ g => g = 0) (openCode me path omode) 0 := by
  unfold openCode
  split
  · apply (works_path hI me true path).bind
    rintro (_ | ⟨dp, name⟩) g hg
    · exact .pure hg
    · obtain ⟨r, rfl, rfl⟩ := hg
      have hNew : Works I Frame sb (fun res g => New.Held r g res) (sect (.openNew me r.ip name omode)) (r ::ₘ 0) := by
        apply Works.of_world
        intro k st f fr hFrame h
        rw [cons_add, zero_add] at h
        apply wp_post (h.openNew hI hFrame me name omode)
        rintro (_ | ip | ip | fd) t ht
        · obtain ⟨f', ht⟩ := ht
          exact ⟨0, st, f', .inl rfl, by rwa [zero_add], rfl⟩
        · obtain ⟨r', hr', ht⟩ := ht
          exact ⟨r' ::ₘ r ::ₘ 0, st, f, .inl rfl, by rwa [cons_add, cons_add, zero_add], r', hr', rfl⟩
        · obtain ⟨r', f', hr', ht⟩ := ht
          exact ⟨r' ::ₘ 0, st, f', .inl rfl, by rwa [cons_add, zero_add], r', hr', rfl⟩
        · obtain ⟨st', f', ht⟩ := ht
          exact ⟨0, st', f', .inl rfl, by rwa [zero_add], rfl⟩
      apply hNew.bind
      rintro (_ | ip | ip | fd) g hg
      · exact .pure hg
      · obtain ⟨r', rfl, rfl⟩ := hg
        rw [cons_swap]
        apply (works_iput hI).bind
        rintro _ g rfl
        exact works_openExisting hI me omode
      · obtain ⟨r', rfl, rfl⟩ := hg
        exact works_last hI _
      · exact .pure hg
  · apply (works_path hI me false path).bind
    rintro (_ | ⟨ip, l⟩) g hg
    · exact .pure hg
    · obtain ⟨r, rfl, rfl⟩ := hg
      exact works_openExisting hI me omode

lemma works_chdirCode (me : Pid) (path : Text) : Works I Frame sb (fun _ g => g = 0) (chdirCode me path) 0 := by
  apply (works_path hI me false path).bind
  rintro (_ | ⟨ip, l⟩) g hg
  · exact .pure hg
  · obtain ⟨r, rfl, rfl⟩ := hg
    apply works_enter.bind
    rintro b g rfl
    obtain ⟨r', hr'⟩ : ∃ r' : Ref, r' = { r with loaded := true } := ⟨_, rfl⟩
    have hip : r.ip = r'.ip := by rw [hr']
    have hLoaded : r'.loaded = true := by rw [hr']
    rw [← hr', hip]
    cases b with
    | true =>
      have hChdir : Works I Frame sb (fun _ g => g = 0) (sect (.chdir me r'.ip)) (r' ::ₘ 0) := by
        apply Works.of_world
        intro k st f fr hFrame h
        rw [cons_add] at h
        apply wp_post (h.chdir hI hFrame hLoaded (le_add_left _ _) me)
        rintro _ t ⟨st', f', hSame, ht⟩
        exact ⟨0, st', f', .inr hSame, ht, rfl⟩
      apply hChdir.bind
      rintro _ g rfl
      exact .pure rfl
    | false => exact works_last hI _

lemma works_linkBadCode : Works I Frame sb (fun _ g => g = x) (linkBadCode r.ip) (r ::ₘ x) := by
  have hDown : Works I Frame sb (fun _ g => g = r ::ₘ x) (sect (.linkDown r.ip)) (r ::ₘ x) := by
    apply Works.of_world
    intro k st f fr hFrame h
    apply wp_post (h.linkDown hI hFrame (mem_add.mpr (.inl (mem_cons_self _ _))))
    rintro _ t ⟨f', hSame, ht⟩
    exact ⟨_, st, f', .inr hSame, ht, rfl⟩
  apply hDown.bind
  rintro _ g rfl
  exact works_last hI _

lemma works_linkCode (me : Pid) (old new : Text) : Works I Frame sb (fun _ g => g = 0) (linkCode me old new) 0 := by
  apply (works_path hI me false old).bind
  rintro (_ | ⟨ip, l⟩) g hg
  · exact .pure hg
  · obtain ⟨r, rfl, rfl⟩ := hg
    have hUp : Works I Frame sb (fun _ g => g = r ::ₘ 0) (sect (.linkUp r.ip)) (r ::ₘ 0) := by
      apply Works.of_world
      intro k st f fr hFrame h
      apply wp_post (h.linkUp hI hFrame (mem_add.mpr (.inl (mem_cons_self _ _))))
      rintro _ t ⟨f', hSame, ht⟩
      exact ⟨_, st, f', .inr hSame, ht, rfl⟩
    apply hUp.bind
    rintro b g rfl
    cases b with
    | false => exact works_last hI _
    | true =>
      apply (works_path hI me true new).bind
      rintro (_ | ⟨dp, name⟩) g hg
      · obtain rfl := hg
        exact works_linkBadCode hI
      · obtain ⟨r', rfl, rfl⟩ := hg
        have hIn : Works I Frame sb (fun _ g => g = r' ::ₘ r ::ₘ 0) (sect (.linkIn r'.ip r.ip name)) (r' ::ₘ r ::ₘ 0) := by
          apply Works.of_world
          intro k st f fr hFrame h
          have hr : r ∈ r' ::ₘ r ::ₘ 0 + fr := by simp
          have hr' : r' ∈ r' ::ₘ r ::ₘ 0 + fr := by simp
          apply wp_post (h.linkIn hI hFrame hr' hr name)
          rintro _ t ⟨f', ht⟩
          exact ⟨_, st, f', .inl rfl, ht, rfl⟩
        apply hIn.bind
        rintro ok g rfl
        apply (works_iput hI).bind
        rintro _ g rfl
        cases ok with
        | true => exact works_last hI _
        | false => exact works_linkBadCode hI

lemma works_unlinkCode (me : Pid) (path : Text) : Works I Frame sb (fun _ g => g = 0) (unlinkCode me path) 0 := by
  apply (works_path hI me true path).bind
  rintro (_ | ⟨dp, name⟩) g hg
  · exact .pure hg
  · obtain ⟨r, rfl, rfl⟩ := hg
    have hUnlink : Works I Frame sb (fun res g => HeldUnlinked r g res) (sect (.unlinkIn r.ip name)) (r ::ₘ 0) := by
      apply Works.of_world
      intro k st f fr hFrame h
      rw [cons_add] at h
      apply wp_post (h.unlinkIn hI hFrame (le_add_left _ _) name)
      rintro (_ | ip) t ht
      · exact ⟨r ::ₘ 0, st, f, .inl rfl, by rwa [cons_add], rfl⟩
      · obtain ⟨r', f', hr', ht⟩ := ht
        exact ⟨r' ::ₘ 0, st, f', .inl rfl, by rwa [cons_add], r', hr', rfl⟩
    apply hUnlink.bind
    rintro (_ | ip) g hg
    · obtain rfl := hg
      exact works_last hI _
    · obtain ⟨r', rfl, rfl⟩ := hg
      exact works_last hI _

omit hI in
lemma works_inOp {c : Coded α} {g : Multiset Ref} (h : Works I Frame sb (fun _ g => g = x) c g) :
    Works I Frame sb (fun _ g => g = x) (inOp c) g := by
  have hBegin : Works I Frame sb (fun _ g' => g' = g) (sect .beginOp) g := by
    apply Works.of_same
    intro k st f fr hk
    exact wp_post hk.beginOp fun _ t ht => ⟨g, st, ht, rfl⟩
  apply hBegin.bind
  rintro _ g rfl
  apply h.bind
  rintro a g rfl
  have hEnd : Works I Frame sb (fun _ g' => g' = g) (sect .endOp) g := by
    apply Works.of_same
    intro k st f fr hk
    exact wp_post hk.endOp fun _ t ht => ⟨g, st, ht, rfl⟩
  apply hEnd.bind
  rintro _ g rfl
  exact .pure rfl

lemma works_closeCode (me : Pid) (fd : Int32) : Works I Frame sb (fun _ g => g = 0) (closeCode me fd) 0 := by
  have hClose : Works I Frame sb (fun res g =>
      match res with
      | some (some ip) => ∃ r : Ref, r.ip = ip ∧ g = r ::ₘ 0
      | _ => g = 0) (sect (.close me fd)) 0 := by
    apply Works.of_same
    intro k st f fr h
    apply wp_post (h.close me fd)
    rintro (_ | _ | ip) t ht
    · exact ⟨0, st, ht, rfl⟩
    · exact ⟨0, st, ht, rfl⟩
    · obtain ⟨r, rest, hr, ht⟩ := ht
      exact ⟨r ::ₘ 0, rest, by rwa [cons_add], r, hr, rfl⟩
  apply hClose.bind
  rintro (_ | _ | ip) g hg
  · exact .pure hg
  · exact .pure hg
  · obtain ⟨r, rfl, rfl⟩ := hg
    apply (works_inOp (works_iput hI)).bind
    rintro _ g rfl
    exact .pure rfl

omit hI in
lemma works_forkCode (me np : Pid) (fds : List Fd) : Works I Frame sb (fun _ g => g = 0) (forkCode me np fds) 0 := by
  induction fds with
  | nil =>
    apply Works.of_same
    intro k st f fr h
    apply wp_post (h.dupCwd me np)
    rintro _ t ⟨st', ht⟩
    exact ⟨0, st', ht, rfl⟩
  | cons fd fds ih =>
    have hDup : Works I Frame sb (fun _ g => g = 0) (sect (.dupFd me np fd)) 0 := by
      apply Works.of_same
      intro k st f fr h
      exact wp_post (h.dupFd me np fd) fun _ t ht => ⟨0, st, ht, rfl⟩
    apply hDup.bind
    rintro _ g rfl
    exact ih

omit hI in
lemma works_dup (me : Pid) (fd : Int32) : Works I Frame sb (fun _ g => g = 0) (sect (.dup me fd)) 0 := by
  apply Works.of_same
  intro k st f fr h
  exact wp_post (h.dup me fd) fun _ t ht => ⟨0, st, ht, rfl⟩

lemma works_writeLoop (me : Pid) (fd : Int32) (src : Offset.Source) (n : Nat) : ∀ fuel i,
    Works I Frame sb (fun _ g => g = 0) (writeLoop me fd src n fuel i) 0 := by
  intro fuel
  induction fuel with
  | zero => exact fun i => .pure rfl
  | succ fuel ih =>
    intro i
    unfold writeLoop
    split
    · have hWrite : ∀ src n, Works I Frame sb (fun _ g => g = 0) (sect (.write me fd src n)) 0 := by
        intro src n
        apply Works.of_world
        intro k st f fr hFrame h
        apply wp_post (h.write hI hFrame me fd src n)
        rintro _ t ⟨f', hSame, ht⟩
        exact ⟨0, st, f', .inr hSame, ht, rfl⟩
      apply (works_inOp (hWrite _ _)).bind
      rintro r g rfl
      split
      · exact .pure rfl
      · exact ih _
    · exact .pure rfl

lemma works_writeCode (me : Pid) (fd : Int32) (src : Offset.Source) (n : Int32) (other : Int) :
    Works I Frame sb (fun _ g => g = 0) (writeCode me fd src n other) 0 := by
  have hFile : Works I Frame sb (fun _ g => g = 0) (sect (.file me fd)) 0 := by
    apply Works.of_same
    intro k st f fr h
    exact wp_post (h.file me fd) fun _ t ht => ⟨0, st, ht, rfl⟩
  apply hFile.bind
  rintro (_ | v) g rfl
  · exact .pure rfl
  · dsimp only
    split
    · exact .pure rfl
    · cases v.type with
      | pipe => exact .pure rfl
      | device => exact .pure rfl
      | inode =>
        dsimp only
        split
        · exact .pure rfl
        · exact works_writeLoop hI me fd src _ _ _
      | none =>
        apply Works.of_same
        intro k st f fr h
        exact (wp_stop _).mpr (by decide)

end

/-! ## Processes -/

inductive Call where
  | «open» (path : Text) (omode : Nat)
  | mkdir (path : Text)
  | mknod (path : Text) (major minor : Int16)
  | link (old new : Text)
  | unlink (path : Text)
  | chdir (path : Text)
  | close (fd : Int32)
  | dup (fd : Int32)
  | fork (np : Pid)
  | write (fd : Int32) (src : Offset.Source) (n : Int32) (other : Int)

/-- The sections of a call by the process `me`. -/
def Call.body (me : Pid) : Call → Coded Int
  | .open path omode => inOp (openCode me path omode)
  | .mkdir path => inOp (makeCode me path tDir 0 0)
  | .mknod path major minor => inOp (makeCode me path tDevice major minor)
  | .link old new => inOp (linkCode me old new)
  | .unlink path => inOp (unlinkCode me path)
  | .chdir path => inOp (chdirCode me path)
  | .close fd => closeCode me fd
  | .dup fd => sect (.dup me fd)
  | .fork np => do
    forkCode me np (List.finRange nofile)
    return 0
  | .write fd src n other => writeCode me fd src n other

def Call.code (c : Call) (me : Pid) : Coded Pid := do
  let _ ← c.body me
  return me

abbrev Processes : Type 1 := Pool Section Kernel Pid Pid

/-- How often the file table and the processes refer to an entry of the inode table. -/
def holders (k : Kernel) (ip : Ip) : Nat :=
  (Finset.univ.filter fun x => (k.ftable x).Names ip).card + (Finset.univ.filter fun p => (k.proc p).cwd = some ip).card

structure Settled (k : Kernel) : Prop where
  consistent : Consistent k.fs
  unlocked : ∀ ip, (k.fs.itable ip).locked = false
  counts : ∀ ip, (k.fs.itable ip).ref = holders k ip
  opened : ∀ x, (k.ftable x).type = .inode ∨ (k.ftable x).type = .device → 0 < (k.ftable x).ref ∧ (k.fs.itable (k.ftable x).ip).valid = true
  cwd : ∀ p ip, (k.proc p).cwd = some ip → (k.fs.files (k.fs.itable ip).inum).type ≠ 0
  plain : ∀ x, (k.ftable x).type = .inode → (k.ftable x).writable = true → (k.fs.itable (k.ftable x).ip).di.type ≠ tDir
  range : DirsInRange k.fs.sb.ninodes k.fs.files

namespace Settled

variable {k : Kernel}

def fileRef (k : Kernel) (x : Fp) : Multiset Ref :=
  if (k.ftable x).type = .inode ∨ (k.ftable x).type = .device then
    {⟨(k.ftable x).ip, (k.fs.itable (k.ftable x).ip).inum, true⟩}
  else 0

def cwdRef (k : Kernel) (p : Pid) : Multiset Ref :=
  match (k.proc p).cwd with
  | none => 0
  | some ip => {⟨ip, (k.fs.itable ip).inum, false⟩}

def refs (k : Kernel) : Multiset Ref := ∑ x, fileRef k x + ∑ p, cwdRef k p

lemma mem_refs {r : Ref} (hr : r ∈ refs k) : r.inum = (k.fs.itable r.ip).inum ∧
    (r.loaded = true ∧ (∃ x, ((k.ftable x).type = .inode ∨ (k.ftable x).type = .device) ∧ (k.ftable x).ip = r.ip) ∨
      r.loaded = false ∧ ∃ p, (k.proc p).cwd = some r.ip) := by
  rcases mem_add.mp hr with hr | hr
  · obtain ⟨x, -, hx⟩ := mem_sum.mp hr
    unfold fileRef at hx
    split at hx
    · rename_i hKind
      obtain rfl := Multiset.mem_singleton.mp hx
      exact ⟨rfl, .inl ⟨rfl, x, hKind, rfl⟩⟩
    · exact absurd hx (Multiset.notMem_zero _)
  · obtain ⟨p, -, hp⟩ := mem_sum.mp hr
    unfold cwdRef at hp
    cases hCwd : (k.proc p).cwd with
    | none =>
      rw [hCwd] at hp
      exact absurd hp (Multiset.notMem_zero _)
    | some ip =>
      rw [hCwd] at hp
      obtain rfl := Multiset.mem_singleton.mp hp
      exact ⟨rfl, .inr ⟨rfl, p, hCwd⟩⟩

lemma countP_sum {ι : Type} [Fintype ι] (P : Ref → Prop) [DecidablePred P] (g : ι → Multiset Ref) :
    (∑ i, g i).countP P = ∑ i, (g i).countP P := map_sum (Multiset.countPAddMonoidHom P) g Finset.univ

lemma countP_refs (h : Settled k) (ip : Ip) : (refs k).countP (fun r => r.ip = ip) = holders k ip := by
  unfold refs holders
  rw [Multiset.countP_add, countP_sum, countP_sum, Finset.card_filter, Finset.card_filter]
  refine congrArg₂ (· + ·) ?_ ?_
  · apply Finset.sum_congr rfl
    intro x _
    unfold fileRef File.Names
    by_cases hKind : (k.ftable x).type = .inode ∨ (k.ftable x).type = .device
    · rw [if_pos hKind, ← Multiset.cons_zero, Multiset.countP_cons, countP_zero, zero_add]
      simp only [hKind, (h.opened x hKind).1, true_and]
    · rw [if_neg hKind, countP_zero]
      simp only [hKind, false_and, and_false, if_false]
  · apply Finset.sum_congr rfl
    intro p _
    unfold cwdRef
    cases (k.proc p).cwd with
    | none => simp
    | some jp =>
      dsimp only
      rw [← Multiset.cons_zero, Multiset.countP_cons, countP_zero, zero_add]
      simp only [Option.some.injEq]

lemma turn (h : Settled k) : Turn k.fs k.fs.sb (refs k) ∅ k.fs.files .free := by
  refine ⟨k.fs.entries, ⟨⟨h.consistent, rfl, rfl, rfl⟩, trivial⟩, ⟨fun ip => ?_, fun r hr => ?_, fun r hr hl => ?_, fun ip => ?_, nofun⟩, nofun⟩
  · rw [h.countP_refs]
    exact h.counts ip
  · exact (mem_refs hr).1.symm
  · rcases (mem_refs hr).2 with ⟨-, x, hKind, hip⟩ | ⟨hNot, -⟩
    · have hValid := (h.opened x hKind).2
      rw [hip] at hValid
      exact hValid
    · rw [hNot] at hl
      cases hl
  · constructor
    · intro hLocked
      change (k.fs.itable ip).locked = true at hLocked
      rw [h.unlocked] at hLocked
      cases hLocked
    · intro hMem
      exact absurd hMem (Finset.notMem_empty _)

lemma held (h : Settled k) : Held k (refs k) k.fs.files := by
  refine ⟨fileRef k, cwdRef k, 0, (add_zero _).symm, fun x => ?_, fun p => ?_⟩
  · unfold fileRef
    by_cases hKind : (k.ftable x).type = .inode ∨ (k.ftable x).type = .device
    · have hMem : (⟨(k.ftable x).ip, (k.fs.itable (k.ftable x).ip).inum, true⟩ : Ref) ∈ refs k := by
        refine mem_add.mpr (.inl (mem_sum.mpr ⟨x, Finset.mem_univ x, ?_⟩))
        rw [fileRef, if_pos hKind]
        exact Multiset.mem_singleton_self _
      rw [if_pos hKind]
      refine .inode _ hKind (h.opened x hKind).1 fun hType hWritable => ?_
      rw [← h.turn.di_type hMem rfl]
      exact h.plain x hType hWritable
    · rw [if_neg hKind]
      refine .none ?_
      cases hType : (k.ftable x).type <;> simp_all
  · unfold cwdRef
    cases hCwd : (k.proc p).cwd with
    | none => exact .none hCwd
    | some ip => exact .some ⟨ip, _, false⟩ hCwd

lemma used (h : Settled k) : ∀ r ∈ refs k, (k.fs.files r.inum).type ≠ 0 := by
  intro r hr
  obtain ⟨hInum, ⟨hLoaded, -⟩ | ⟨-, p, hp⟩⟩ := mem_refs hr
  · exact h.turn.allocated hr (.inr hLoaded)
  · rw [hInum]
    exact h.cwd p r.ip hp

lemma world (h : Settled k) {I : (Nat → Node) → Prop} (hI : I k.fs.files) : Inv I k.fs.sb k 0 := by
  refine ⟨refs k, k.fs.files, ?_, h.held, h.used, h.consistent.ok.root, h.range, hI⟩
  rw [add_zero]
  exact h.turn

end Settled

section

variable {I : (Nat → Node) → Prop} {Frame : Multiset Ref → Prop} {sb : Superblock} {s t : Processes}

lemma Call.works_body (hI : Lasting I Frame sb.ninodes) (c : Call) (me : Pid) :
    Works I Frame sb (fun _ g => g = 0) (c.body me) 0 := by
  cases c with
  | «open» path omode => exact works_inOp (works_openCode hI me path omode)
  | mkdir path => exact works_inOp (works_makeCode hI me path (by decide) 0 0)
  | mknod path major minor => exact works_inOp (works_makeCode hI me path (by decide) major minor)
  | link old new => exact works_inOp (works_linkCode hI me old new)
  | unlink path => exact works_inOp (works_unlinkCode hI me path)
  | chdir path => exact works_inOp (works_chdirCode hI me path)
  | close fd => exact works_closeCode hI me fd
  | dup fd => exact works_dup me fd
  | fork np =>
    apply (works_forkCode me np _).bind
    rintro _ g rfl
    exact .pure rfl
  | write fd src n other => exact works_writeCode hI me fd src n other

lemma Call.works (hI : Lasting I Frame sb.ninodes) (c : Call) (me : Pid) : Works I Frame sb (fun _ g => g = 0) (c.code me) 0 := by
  apply (c.works_body hI me).bind
  rintro _ g rfl
  exact .pure rfl

end

def AnyFiles (_ : Nat → Node) : Prop := True

lemma lasting_anyFiles (N : Nat) : Lasting AnyFiles (fun _ => True) N := fun _ _ _ _ _ _ _ _ _ => trivial

def Reaches (s : Processes) : Prop :=
  Transition.Reachable (fun s => Settled s.shared ∧ ∀ p, s.proc p = .done p)
    (fun s a t => Pool.next Section.run Call.code s a = some t) (fun _ _ => True) s

namespace Reaches

variable {s : Processes}

lemma shares (h : Reaches s) : ∃ sb, Pool.Shares Section.run (contract AnyFiles (fun _ => True) sb) (fun _ g => g = 0) s := by
  refine Transition.Reachable.invariant
    (I := fun s => ∃ sb, Pool.Shares Section.run (contract AnyFiles (fun _ => True) sb) (fun _ g => g = 0) s) ?_ ?_ h
  · rintro s ⟨hSettled, hIdle⟩
    refine ⟨s.shared.fs.sb, fun _ => 0, ?_, fun p => ?_⟩
    · rw [Finset.sum_const_zero]
      exact hSettled.world trivial
    · rw [hIdle p]
      exact rfl
  · rintro s a t ⟨sb, hs⟩ - ht
    refine ⟨sb, hs.next (fun _ => trivial) ?_ ?_ ht⟩
    · rintro c me g rfl
      exact c.works (lasting_anyFiles _) me
    · cases a with
      | start p c => trivial
      | step p =>
        dsimp only [Pool.Admits]
        split <;> trivial

lemma world (h : Reaches s) : ∃ sb st g f, World AnyFiles sb s.shared st g ∅ f := by
  obtain ⟨sb, g, ⟨st, f, hWorld⟩, -⟩ := h.shares
  exact ⟨sb, st, _, f, hWorld⟩

end Reaches

/-! ## A process in the root directory -/

namespace NamesSample

def p0 : Pid := ⟨0, by decide⟩

def fs : FsState := Sample.fs.setInode ip0 ⟨rootdev, 1, 1, false, false, Dinode.zero⟩

lemma fs_consistent : Consistent fs := Sample.fs_consistent.enter (fun _ => rfl) _ (by decide) _

def kernel : Kernel where
  mem := ⟨0, 0, [], fun _ => Bytes.fill 0⟩
  fs := fs
  trampoline := 0
  kpgtbl := 0
  ftable := fun _ => ⟨.none, 0, false, false, 0, ip0, 0, 0⟩
  pipes := fun _ => ⟨0, 0, false, false, Bytes.fill 0⟩
  proc := fun p => ⟨.running, none, false, 0, 0, none, 0, 0, 0, fun _ => none, if p = p0 then some ip0 else none, [], none⟩
  nextpid := 1
  initproc := none

lemma kernel_settled : Settled kernel where
  consistent := fs_consistent
  unlocked := by decide +kernel
  counts := by decide +kernel
  opened := by decide +kernel
  cwd := by decide +kernel
  plain := by decide +kernel
  range := dirsInRange_of_check (by decide +kernel)

def start : Processes := ⟨kernel, .done⟩

lemma start_reaches : Reaches start := .start ⟨kernel_settled, fun _ => rfl⟩

/-- `open("a", O_RDWR)` in sections. -/
def acts : List (Pool.Act Pid Call) := .start p0 (.open [97] oRdwr) :: List.replicate 6 (.step p0)

def openedFile (s : Processes) : Bool :=
  let v := s.shared.ftable ⟨0, nfile_pos⟩
  v.ref == 1 && v.type == .inode && v.writable && (s.shared.fs.itable v.ip).di.type == tFile

lemma opened_reaches : ∃ s, Reaches s ∧ openedFile s = true :=
  Transition.Reachable.exists_of_run (fun _ _ _ ht => ht) acts (fun _ _ _ => trivial) start_reaches (by decide +kernel)

end NamesSample

/-- Whatever processes do at the same time, no file that is open for writing is a directory, and only
`dirlink` and `sys_unlink` make directories or change what is in them. -/
theorem directories_not_writable {s : Processes} (h : Reaches s) :
    (∀ x, 0 < (s.shared.ftable x).ref → (s.shared.ftable x).type = .inode → (s.shared.ftable x).writable = true →
      (s.shared.fs.itable (s.shared.ftable x).ip).di.type ≠ tDir) ∧
    ∀ (p : Pid) (β : Type) (l : Section β) (c : β → Coded Pid), s.proc p = .call l c →
      ∀ b t, Section.run β l s.shared = .ok (b, t) → l.naming = true ∨ SameDirs s.shared.fs.files t.fs.files := by
  constructor
  · intro x _ hType hWritable
    obtain ⟨sb, st, g, f, hWorld⟩ := h.world
    obtain ⟨m, rest, hst, hm, -⟩ := hWorld.held.file x
    cases hm with
    | none kind => rcases kind with kind | kind <;> simp [hType] at kind
    | inode i kind opened plain =>
      have hMem : (⟨(s.shared.ftable x).ip, i, true⟩ : Ref) ∈ st + g := by simp [hst]
      rw [hWorld.turn.di_type hMem rfl]
      exact plain hType hWritable
  · intro p β l c hp b t hRun
    obtain ⟨sb, hShares⟩ := h.shares
    have hDone := wp_ok (hShares.section_ (fun _ => trivial) hp trivial) hRun
    exact hDone.1

open NamesSample in
theorem directories_not_writable_opened : ∃ s, Reaches s ∧ openedFile s = true ∧
    ∀ x, 0 < (s.shared.ftable x).ref → (s.shared.ftable x).type = .inode → (s.shared.ftable x).writable = true →
      (s.shared.fs.itable (s.shared.ftable x).ip).di.type ≠ tDir := by
  obtain ⟨s, hs, hTest⟩ := opened_reaches
  exact ⟨s, hs, hTest, (directories_not_writable hs).1⟩

end Xv6K230.Names
