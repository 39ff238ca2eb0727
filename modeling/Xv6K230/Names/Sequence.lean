import Xv6K230.Names.Entries
import Xv6K230.Names.System

/-! # Calls one after the other

A call that runs alone keeps every invariant that survives changes by a process without others.
-/

namespace Xv6K230.Names

open Function (update_of_ne update_self)
open Fs Prog Code

/-- The call as the kernel makes it; of `fork` the part that concerns files. -/
def Call.sys (me : Pid) : Call → KM Int
  | .open path omode => sysOpen me (some path) omode
  | .mkdir path => withCwd me fun cwd => sysMkdir cwd (some path)
  | .mknod path major minor => withCwd me fun cwd => sysMknod cwd (some path) major minor
  | .link old new => withCwd me fun cwd => sysLink cwd (some old) (some new)
  | .unlink path => withCwd me fun cwd => sysUnlink cwd (some path)
  | .chdir path => sysChdir me (some path)
  | .close fd => sysClose me fd
  | .dup fd => sysDup me fd
  | .fork np => do
    Prog.eachM (dupOfile me np) (List.finRange nofile)
    dupCwd me np
    return 0
  | .write fd src n other => sysWrite me fd src.copyin n other

section

variable {I : (Nat → Node) → Prop} {sb : Superblock} {k : Kernel} {me : Pid} {cwd : Ip}

lemma withCwd_eq (call : Ip → FsM Int) : withCwd me call k =
    (match (k.proc me).cwd with
    | none => Prog.stop Stop.nullPointer
    | some cwd => onFs (call cwd) : KM Int) k := rfl

lemma withCwd_of (h : (k.proc me).cwd = some cwd) (call : Ip → FsM Int) : withCwd me call k = onFs (call cwd) k := by
  rw [withCwd_eq, h]

lemma withCwd_none {Q : Int → Kernel → Prop} (h : (k.proc me).cwd = none) (call : Ip → FsM Int) : wp (withCwd me call) Quiet Q k := by
  unfold withCwd
  rw [wp_bind, wp_getProc, h]
  exact (wp_stop _).mpr (by decide)

lemma Call.sys_eq (h : (k.proc me).cwd = some cwd) (c : Call) : alone (c.body me) k = c.sys me k := by
  cases c with
  | «open» path omode => exact alone_openCode path omode k h
  | mkdir path =>
    rw [Call.sys, withCwd_of h]
    exact alone_makeCode path (by decide) 0 0 k h
  | mknod path major minor =>
    rw [Call.sys, withCwd_of h]
    exact alone_makeCode path (by decide) major minor k h
  | link old new =>
    rw [Call.sys, withCwd_of h]
    exact alone_linkCode old new k h
  | unlink path =>
    rw [Call.sys, withCwd_of h]
    exact alone_unlinkCode path k h
  | chdir path => exact alone_chdirCode path k h
  | close fd => exact congrFun (alone_closeCode fd) k
  | dup fd => exact congrFun (alone_sect _) k
  | fork np =>
    simp only [Call.body, Call.sys, alone_bind, alone_forkCode, alone_pure, bind_assoc]
  | write fd src n other => exact congrFun (alone_writeCode fd src n other) k

lemma Call.sys_inv (hI : Lasting I (fun fr => fr = 0) sb.ninodes) (h : Inv I sb k 0) (c : Call) (me : Pid) :
    wp (c.sys me) Quiet (fun _ t => Inv I sb t 0) k := by
  have hRun : wp (alone (c.body me)) Quiet (fun _ t => Inv I sb t 0) k := by
    apply wp_post ((c.works_body hI me).run rfl (fun _ _ _ => trivial) h)
    rintro _ t ⟨g, ht, rfl⟩
    exact ht
  cases hCwd : (k.proc me).cwd with
  | some cwd =>
    unfold wp at hRun ⊢
    rwa [c.sys_eq hCwd] at hRun
  | none =>
    cases c with
    | «open» path omode =>
      rw [Call.sys, sysOpen, wp_bind, wp_getProc, hCwd]
      exact (wp_stop _).mpr (by decide)
    | mkdir path => exact withCwd_none hCwd _
    | mknod path major minor => exact withCwd_none hCwd _
    | link old new => exact withCwd_none hCwd _
    | unlink path => exact withCwd_none hCwd _
    | chdir path =>
      obtain ⟨st, f, hk⟩ := h
      rw [Call.sys, sysChdir, wp_bind, wp_onFs]
      apply wp_post (hk.turn.beginOp quiet_tame)
      intro _ t _
      have hNone : ((k.setFs t).proc me).cwd = none := hCwd
      rw [wp_bind, wp_getProc, hNone]
      exact (wp_stop _).mpr (by decide)
    | close fd => rwa [Call.body, alone_closeCode] at hRun
    | dup fd => rwa [Call.body, alone_sect] at hRun
    | fork np =>
      simp only [Call.body, alone_bind, alone_forkCode, alone_pure, bind_assoc] at hRun
      exact hRun
    | write fd src n other => rwa [Call.body, alone_writeCode] at hRun

end

/-! ## Directories through a sequence of calls -/

/-- The processes make whole calls one after the other, from an image with well-formed directories. -/
def Sequence (k : Kernel) : Prop :=
  Transition.Reachable (fun k => Settled k ∧ DirsOk k.fs.files) (fun k (a : Pid × Call) t => ∃ r, a.2.sys a.1 k = .ok (r, t))
    (fun _ _ => True) k

lemma lasting_dirsOk {N : Nat} (hShort : N ≤ 2 ^ 16) : Lasting DirsOk (fun fr => fr = 0) N := by
  rintro st fr f f' rfl hUsed _ hf hc
  rw [add_zero] at hc
  exact hc.dirsOk hShort hUsed hf

lemma Sequence.inv {k : Kernel} (h : Sequence k) : ∃ sb, Inv DirsOk sb k 0 := by
  refine Transition.Reachable.invariant (I := fun k => ∃ sb, Inv DirsOk sb k 0) ?_ ?_ h
  · rintro k ⟨hSettled, hDirs⟩
    exact ⟨k.fs.sb, hSettled.world hDirs⟩
  · rintro k ⟨me, c⟩ t ⟨sb, hk⟩ - ⟨r, ht⟩
    obtain ⟨st, f, hWorld⟩ := hk
    have hDone := wp_ok (c.sys_inv (lasting_dirsOk hWorld.turn.short) ⟨st, f, hWorld⟩ me) ht
    exact ⟨sb, hDone⟩

/-- The directories of `f` are finite maps, and the functions that work on them work on the maps. The
caller of `dirlookup` and `dirlink` has the directory locked; `unlinkIn` is `sys_unlink` from the
lock of the directory on. -/
structure DirectoryMaps (sb : Superblock) (f : Nat → Node) : Prop where
  finite : ∀ i, (f i).type = tDir → {k | binding (f i) k ≠ none}.Finite
  lookup : ∀ {s : FsState} {l : Multiset Ref} {L : Finset Ip} {r : Ref}, Turn s sb l L f .free → r ∈ l → r.ip ∈ L →
    (f r.inum).type = tDir → ∀ name, wp (dirlookup r.ip name) Quiet (fun res t => t.files = f ∧
      match res with
      | none => binding (f r.inum) (key name) = none
      | some (ip, off) => binding (f r.inum) (key name) = some (t.itable ip).inum ∧
          ∀ o, (f r.inum).Names o name ↔ o = off) s
  link : ∀ {s : FsState} {l : Multiset Ref} {L : Finset Ip} {r : Ref}, Turn s sb l L f .free → r ∈ l → r.ip ∈ L →
    (f r.inum).type = tDir → ∀ name inum, 0 < inum ∧ inum < sb.ninodes → wp (dirlink r.ip name inum) Quiet (fun res t =>
      (res = false ↔ binding (f r.inum) (key name) ≠ none ∨ NoSpace s (s.itable r.ip).di (f r.inum)) ∧
      if res then (∀ i ≠ r.inum, t.files i = f i) ∧
        binding (t.files r.inum) = Function.update (binding (f r.inum)) (key name) (some inum)
      else t.files = f) s
  unlink : ∀ {s : FsState} {l : Multiset Ref} {r : Ref}, Turn s sb (r ::ₘ l) ∅ f .free → (f r.inum).type = tDir →
    ∀ name, wp (unlinkIn r.ip name) Quiet (fun res t =>
      match res with
      | none => t.files = f
      | some _ => binding (f r.inum) (key name) ≠ none ∧
          (t.files r.inum = Node.free ∨ binding (t.files r.inum) = Function.update (binding (f r.inum)) (key name) none) ∧
          ∀ i ≠ r.inum, (t.files i).type = (f i).type ∧ binding (t.files i) = binding (f i)) s

lemma finite_binding (n : Node) : {k | binding n k ≠ none}.Finite := by
  apply ((direntOffsets n.size).toFinset.image fun off => key (n.dirent off).name).finite_toSet.subset
  intro k hk
  obtain ⟨j, hj⟩ := Option.ne_none_iff_exists'.mp hk
  obtain ⟨off, hFind, -⟩ := Option.map_eq_some_iff.mp hj
  have hFound := List.find?_some hFind
  rw [decide_eq_true_eq] at hFound
  rw [Finset.coe_image]
  exact ⟨off, List.mem_toFinset.mpr (List.mem_of_find?_eq_some hFind), hFound.2⟩

lemma binding_congr {n n' : Node} (hSize : n'.size = n.size) (hData : n'.data = n.data) : binding n' = binding n := by
  have hDirent : n'.dirent = n.dirent := by
    funext off
    unfold Node.dirent
    rw [hData]
  unfold binding
  rw [hSize, hDirent]

section

variable {s : FsState} {sb : Superblock} {l : Multiset Ref} {L : Finset Ip} {f : Nat → Node} {r : Ref} (hDirs : DirsOk f)
  (hRange : DirsInRange sb.ninodes f) (hDir : (f r.inum).type = tDir) (name : Text)

include hDirs hRange hDir

lemma dirlookup_binding (h : Turn s sb l L f .free) (hr : r ∈ l) (hL : r.ip ∈ L) :
    wp (dirlookup r.ip name) Quiet (fun res t => t.files = f ∧
      match res with
      | none => binding (f r.inum) (key name) = none
      | some (ip, off) => binding (f r.inum) (key name) = some (t.itable ip).inum ∧
          ∀ o, (f r.inum).Names o name ↔ o = off) s := by
  have hOk := hDirs r.inum hDir
  apply wp_post (h.dirlookup quiet_tame hr hL (hRange r.inum) name)
  rintro (_ | ⟨ip, off⟩) t ⟨-, ht⟩
  · obtain ⟨rfl, hAbsent⟩ := ht
    exact ⟨h.files, hOk.binding_eq_none.mpr hAbsent⟩
  · obtain ⟨hNamed, ht⟩ := ht
    have hInum := wp_ok (ht.getInode_held (E := Quiet) (Multiset.mem_cons_self _ _)) rfl
    refine ⟨ht.files, ?_, fun o => ⟨fun ho => hOk.unique ho hNamed, ?_⟩⟩
    · rw [hOk.binding_of_names hNamed, hInum.2.2]
    · rintro rfl
      exact hNamed

lemma Turn.dirlink_count (h : Turn s sb l L f .free) (hr : r ∈ l) (hL : r.ip ∈ L) (inum : Nat) :
    wp (Fs.dirlink r.ip name inum) (fun _ => True) (fun res _ =>
      res = false ↔ (∃ off, (f r.inum).Names off name) ∨ NoSpace s (s.itable r.ip).di (f r.inum)) s := by
  obtain ⟨e, hJob, hCounted, -⟩ := h
  have hCount := Fs.dirlink_count hJob.view (hCounted.pos hr) (hCounted.valid r.ip hL)
  rw [hCounted.inum r hr] at hCount
  exact hCount (hRange r.inum) (hDirs r.inum hDir).aligned name inum

lemma dirlink_binding (h : Turn s sb l L f .free) (hr : r ∈ l) (hL : r.ip ∈ L) {inum : Nat} (hInum : 0 < inum ∧ inum < sb.ninodes) :
    wp (dirlink r.ip name inum) Quiet (fun res t =>
      (res = false ↔ binding (f r.inum) (key name) ≠ none ∨ NoSpace s (s.itable r.ip).di (f r.inum)) ∧
      if res then (∀ i ≠ r.inum, t.files i = f i) ∧
        binding (t.files r.inum) = Function.update (binding (f r.inum)) (key name) (some inum)
      else t.files = f) s := by
  have hOk := hDirs r.inum hDir
  have hShort := h.short
  have hDone := h.dirlink quiet_tame hr hL (hRange r.inum) (fun _ _ => trivial) trivial trivial name inum
  refine wp_mono (wp_both hDone (h.dirlink_count hDirs hRange hDir name hr hL inum)) (fun _ he => he.1) ?_
  rintro res t ⟨⟨-, hRes⟩, hWhen⟩
  have hBound : (∃ off, (f r.inum).Names off name) ↔ binding (f r.inum) (key name) ≠ none := by
    rw [Ne, hOk.binding_eq_none, not_forall_not]
  rw [hBound] at hWhen
  refine ⟨hWhen, ?_⟩
  rcases hRes with ⟨rfl, ht⟩ | ⟨rfl, hAbsent, off, hVacant, ht⟩
  · rw [if_neg (by decide)]
    exact ht.files
  · rw [if_pos rfl, ht.files]
    refine ⟨fun i hi => update_of_ne hi _ _, ?_⟩
    rw [update_self]
    exact hOk.binding_put hVacant hAbsent ⟨hInum.1, by omega⟩

lemma unlinkIn_binding (h : Turn s sb (r ::ₘ l) ∅ f .free) :
    wp (unlinkIn r.ip name) Quiet (fun res t =>
      match res with
      | none => t.files = f
      | some _ => binding (f r.inum) (key name) ≠ none ∧
          (t.files r.inum = Node.free ∨ binding (t.files r.inum) = Function.update (binding (f r.inum)) (key name) none) ∧
          ∀ i ≠ r.inum, (t.files i).type = (f i).type ∧ binding (t.files i) = binding (f i)) s := by
  have hOk := hDirs r.inum hDir
  apply wp_post (h.unlinkIn quiet_tame (fun _ => by decide) (hRange r.inum) (.free ..)
    fun _ _ => ⟨trivial, fun _ => by decide, fun _ => by decide⟩)
  rintro (_ | ip) t ⟨-, ht⟩
  · exact ht.files
  · obtain ⟨hDot, hDots, off, i, hNamed, -, hne, -, -, -, f', hDrops, ht⟩ := ht
    have hHere : f' r.inum = Node.free ∨ binding (f' r.inum) = Function.update (binding (f r.inum)) (key name) none := by
      cases hDrops with
      | free => exact .inl (update_self ..)
      | keep =>
        rw [cleared, update_self]
        exact .inr ((binding_congr rfl rfl).trans (hOk.binding_clear hNamed ⟨hDot, hDots⟩))
    have hElse : ∀ j ≠ r.inum, f' j = f j := by
      intro j hj
      cases hDrops with
      | free => rw [update_of_ne hj, cleared, update_of_ne hj]
      | keep => rw [cleared, update_of_ne hj]
    rw [ht.files, relinked]
    refine ⟨?_, ?_, ?_⟩
    · rw [hOk.binding_of_names hNamed]
      exact Option.some_ne_none _
    · rwa [update_of_ne hne.symm]
    · grind [Function.update_apply, binding_congr]

end

/-- Through every sequence of calls directories stay well formed, and are finite maps. -/
theorem directory_representation {k : Kernel} (h : Sequence k) : DirsOk k.fs.files ∧ DirectoryMaps k.fs.sb k.fs.files := by
  obtain ⟨sb, st, f, hWorld⟩ := h.inv
  have hSb : k.fs.sb = sb := by
    obtain ⟨e, hJob, -⟩ := hWorld.turn
    exact hJob.view.sb
  rw [hSb, hWorld.turn.files]
  have hDirs : DirsOk f := hWorld.more
  refine ⟨hDirs, fun i _ => finite_binding _, ?_, ?_, ?_⟩
  · intro s l L r ht hr hL hDir name
    exact dirlookup_binding hDirs hWorld.range hDir name ht hr hL
  · intro s l L r ht hr hL hDir name inum hInum
    exact dirlink_binding hDirs hWorld.range hDir name ht hr hL hInum
  · intro s l r ht hDir name
    exact unlinkIn_binding hDirs hWorld.range hDir name ht

namespace NamesSample

lemma kernel_dirsOk : DirsOk kernel.fs.files := dirsOk_of_check (by decide +kernel)

/-- `mkdir("d")` and `unlink("a")`. -/
def calls : List (Pid × Call) := [(p0, .mkdir [100]), (p0, .unlink [97])]

def renamed (k : Kernel) : Bool := binding (k.fs.files 1) [97] == none && binding (k.fs.files 1) [100] == some 4

def next (k : Kernel) (a : Pid × Call) : Option Kernel :=
  match a.2.sys a.1 k with
  | .ok (_, t) => some t
  | .error _ => none

lemma sys_of_next (k : Kernel) (a : Pid × Call) (t : Kernel) (ht : next k a = some t) : ∃ r, a.2.sys a.1 k = .ok (r, t) := by
  unfold next at ht
  split at ht
  · rename_i r u hu
    cases ht
    exact ⟨r, hu⟩
  · cases ht

lemma renamed_reached : ∃ k, Sequence k ∧ renamed k = true :=
  Transition.Reachable.exists_of_run sys_of_next calls (fun _ _ _ => trivial) (.start ⟨kernel_settled, kernel_dirsOk⟩)
    (by decide +kernel)

end NamesSample

open NamesSample in
theorem directory_representation_renamed : ∃ k, Sequence k ∧ renamed k = true ∧ DirsOk k.fs.files ∧
    DirectoryMaps k.fs.sb k.fs.files := by
  obtain ⟨k, hk, hTest⟩ := renamed_reached
  exact ⟨k, hk, hTest, directory_representation hk⟩

end Xv6K230.Names
