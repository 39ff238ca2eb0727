import Xv6K230.Names.Resolution
import Xv6K230.Names.Sequence

/-! # Calls that fail

What a call on the name space has done when it returns -1.
-/

namespace Xv6K230.Names

open Finset (erase_singleton mem_singleton_self)
open Multiset (mem_cons_self mem_cons_of_mem mem_add)
open Fs Prog
open Function (update_idem update_of_ne update_self)

section

variable {E : Stop → Prop} {s t : FsState} {sb : Superblock} {l : Multiset Ref} {L : Finset Ip} {f : Nat → Node} {r r' : Ref}
  {type : UInt16} {major minor : Int16}

lemma Turn.drop_owned (hOwned : Owned f l) (h : Turn s sb (r ::ₘ l) ∅ f .free) :
    wp (Fs.iput r.ip) Quiet (fun _ t => Still s t ∧ Turn t sb l ∅ f .free) s := by
  apply wp_post h.drop
  rintro _ t ⟨f', -, hStill, hSame, ht⟩
  obtain rfl := hSame (or_iff_not_imp_left.mpr (hOwned r.inum))
  exact ⟨hStill rfl, ht⟩

lemma Owned.mono {l' : Multiset Ref} (h : Owned f l) (hl : l ≤ l') : Owned f l' := fun i hType => (h i hType).mono hl

lemma Turn.unlock_drop (hOwned : Owned f l) (h : Turn s sb (r ::ₘ l) {r.ip} f .free) :
    wp (Fs.iunlockput r.ip) Quiet (fun _ t => Turn t sb l ∅ f .free) s := by
  unfold Fs.iunlockput
  apply wp_call (h.iunlock quiet_tame (mem_cons_self _ _))
  intro _ t ht
  rw [erase_singleton] at ht
  exact wp_post (ht.drop_owned hOwned) fun _ u hu => hu.2

lemma Turn.gives_up (hOwned : Owned f l) (h : Turn s sb (r ::ₘ l) ∅ f .free) :
    wp (do Fs.iput r.ip; Fs.endOp; return -1 : FsM Int) Quiet (fun _ t => Turn t sb l ∅ f .free) s := by
  apply wp_call (h.drop_owned hOwned)
  rintro _ t ⟨-, ht⟩
  apply wp_call ht.endOp
  exact fun _ u hu => wp_val hu

lemma Turn.ends (h : Turn s sb l ∅ f .free) : wp (do Fs.endOp; return -1 : FsM Int) Quiet (fun _ t => Turn t sb l ∅ f .free) s := by
  apply wp_call h.endOp
  exact fun _ u hu => wp_val hu

lemma walkStart_still (cwd : Ip) (absolute : Bool) : wp (walkStart cwd absolute) Quiet (fun _ t => Still s t) s := by
  unfold walkStart
  rw [wp_ite]
  exact ⟨fun _ => iget_still fun _ => by decide, fun _ => idup_still⟩

variable (hDirs : DirsOk f) (hRange : DirsInRange sb.ninodes f) (hRoot : 1 < sb.ninodes)

include hDirs hRange hRoot

lemma Turn.path (hOwned : Owned f l) (h : Turn s sb l ∅ f .free) (hr : r ∈ l) (path : Text) (parent : Bool) :
    wp (namex r.ip path parent) Quiet (fun res t => Still s t ∧
      match res with
      | none => Turn t sb l ∅ f .free ∧
          resolve f parent (if path.head? = some slash then rootino else r.inum) (components path) = none
      | some (ip, name) => ∃ r' : Ref, r'.ip = ip ∧ Turn t sb (r' ::ₘ l) ∅ f .free ∧
          resolve f parent (if path.head? = some slash then rootino else r.inum) (components path) = some (r'.inum, name)) s := by
  rw [namex_eq]
  apply wp_call (wp_and (h.walkStart quiet_tame hr hRoot _) (walkStart_still r.ip _))
  rintro ip t ⟨ht, hStill⟩
  obtain ⟨r1, hr1⟩ : ∃ r1 : Ref, r1 = ⟨ip, if path.head? = some slash then rootino else r.inum, false⟩ := ⟨_, rfl⟩
  have hip : ip = r1.ip := by rw [hr1]
  have hStart : (if path.head? = some slash then rootino else r.inum) = r1.inum := by rw [hr1]
  simp only [decide_eq_true_eq] at ht
  rw [hStart]
  rw [← hr1] at ht
  rw [hip]
  apply wp_post (Turn.walk parent _ r1 path (Nat.lt_succ_self _) ht hDirs hRange)
  rintro res u ⟨f', hWalked⟩
  obtain rfl := hWalked.owned hOwned
  refine ⟨hStill.trans (hWalked.still rfl), ?_⟩
  have hEnds := hWalked.ends
  cases res with
  | none => exact ⟨hEnds.1, hEnds.2 rfl⟩
  | some p =>
    obtain ⟨r', hip', hu, -, hRes⟩ := hEnds
    exact ⟨r', hip', hu, hRes rfl⟩

lemma Turn.nameiparent (hOwned : Owned f l) (h : Turn s sb l ∅ f .free) (hr : r ∈ l) (path : Text) :
    wp (Fs.nameiparent r.ip path) Quiet (fun res t => Still s t ∧
      match res with
      | none => Turn t sb l ∅ f .free ∧ parentTarget f (if path.head? = some slash then rootino else r.inum) path = none
      | some (ip, name) => ∃ r' : Ref, r'.ip = ip ∧ Turn t sb (r' ::ₘ l) ∅ f .free ∧
          parentTarget f (if path.head? = some slash then rootino else r.inum) path = some (r'.inum, name)) s := by
  have hMain := h.path hDirs hRange hRoot hOwned hr path true
  rw [resolve_true] at hMain
  exact hMain

lemma Turn.namei (hOwned : Owned f l) (h : Turn s sb l ∅ f .free) (hr : r ∈ l) (path : Text) :
    wp (Fs.namei r.ip path) Quiet (fun res t =>
      match res with
      | none => Turn t sb l ∅ f .free
      | some ip => ∃ r' : Ref, r'.ip = ip ∧ Turn t sb (r' ::ₘ l) ∅ f .free) s := by
  unfold Fs.namei
  apply wp_call (h.path hDirs hRange hRoot hOwned hr path false)
  rintro (_ | p) t ⟨-, hRes⟩
  · exact wp_val hRes.1
  · obtain ⟨r', hip, ht, -⟩ := hRes
    exact wp_val ⟨r', hip, ht⟩

/-! ## Calls that undo their work -/

lemma sysUnlink_failed (hOwned : Owned f l) (h : Turn s sb l ∅ f .free) (hr : r ∈ l) (path : Option Text) :
    wp (sysUnlink r.ip path) Quiet (fun res t => res = -1 → t.files = f) s := by
  cases path with
  | none => exact wp_val fun _ => h.files
  | some path =>
    rw [sysUnlink_eq]
    apply wp_call (h.beginOp quiet_tame)
    intro _ t ht
    apply wp_call (ht.nameiparent hDirs hRange hRoot hOwned hr path)
    rintro (_ | ⟨dp, name⟩) u ⟨-, hRes⟩
    · exact wp_post hRes.1.ends fun _ v hv _ => hv.files
    · obtain ⟨r', rfl, hu, -⟩ := hRes
      apply wp_call (hu.unlinkIn quiet_tame (fun _ => by decide) (hRange r'.inum) (.free ..)
        fun _ _ => ⟨trivial, fun _ => by decide, fun _ => by decide⟩)
      rintro (_ | ip) v ⟨-, hv⟩
      · simp only [unlinkRest, bind_assoc, pure_bind]
        apply wp_post (Turn.gives_up hOwned hv)
        exact fun _ w hw _ => hw.files
      · obtain ⟨-, -, off, i, -, -, -, -, -, -, f', -, hv⟩ := hv
        simp only [unlinkRest, bind_assoc, pure_bind]
        apply wp_call (Turn.drop (r := ⟨ip, i, true⟩) hv)
        rintro _ w ⟨f'', -, -, -, hw⟩
        apply wp_call hw.endOp
        exact fun _ x _ => wp_val fun h0 => absurd h0 (by decide)

omit hDirs hRange hRoot in
lemma linkBad_eq (ip : Ip) :
    linkBad ip = (do
      linkDown ip
      Fs.iput ip
      Fs.endOp
      return -1) := by
  simp only [linkBad, linkDown, iunlockput, bind_assoc]

omit hDirs hRange hRoot in
lemma relinked_back (f : Nat → Node) (i : Nat) : relinked (relinked f i (· + 1)) i (· - 1) = f := by
  unfold relinked
  rw [update_self, update_idem]
  simp

omit hDirs hRange hRoot in
lemma Turn.linkBad (hOwned : Owned f l) (h : Turn s sb (r ::ₘ l) ∅ (relinked f r.inum (· + 1)) .free) :
    wp (Fs.linkBad r.ip) Quiet (fun _ t => Turn t sb l ∅ f .free) s := by
  rw [linkBad_eq]
  apply wp_call (h.linkDown quiet_tame (mem_cons_self _ _) (fun _ => by decide) (.free ..))
  rintro _ t ⟨-, ht⟩
  rw [relinked_back] at ht
  exact ht.gives_up hOwned

lemma sysLink_failed (hOwned : Owned f l) (h : Turn s sb l ∅ f .free) (hr : r ∈ l) (old new : Option Text) :
    wp (sysLink r.ip old new) Quiet (fun res t => res = -1 → t.files = f) s := by
  rcases old with _ | old
  · exact wp_val fun _ => h.files
  rcases new with _ | new
  · exact wp_val fun _ => h.files
  rw [sysLink_eq]
  apply wp_call (h.beginOp quiet_tame)
  intro _ t ht
  apply wp_call (ht.namei hDirs hRange hRoot hOwned hr old)
  rintro (_ | ip) u hu
  · exact wp_post hu.ends fun _ v hv _ => hv.files
  obtain ⟨r', rfl, hu⟩ := hu
  have hMem : r' ∈ r' ::ₘ l := mem_cons_self _ _
  apply wp_call (hu.linkUp quiet_tame hMem (fun _ => by decide) (.free ..))
  rintro res v ⟨-, ⟨rfl, -, hv⟩ | ⟨rfl, hPlain, hv⟩⟩
  · rw [if_neg (by decide)]
    exact wp_post (hv.gives_up hOwned) fun _ w hw _ => hw.files
  -- the second walk starts with the link counted
  obtain ⟨g, hg⟩ : ∃ g, g = relinked f r'.inum (· + 1) := ⟨_, rfl⟩
  have hOther : ∀ i, i ≠ r'.inum → g i = f i := fun i hi => by rw [hg, relinked, update_of_ne hi]
  have hNotDir : (g r'.inum).type ≠ tDir := by
    rw [hg, relinked, update_self]
    exact hPlain
  have hDirs' : DirsOk g := by
    intro i hDir
    have hi : i ≠ r'.inum := fun he => hNotDir (he ▸ hDir)
    rw [hOther i hi] at hDir ⊢
    exact hDirs i hDir
  have hRange' : DirsInRange sb.ninodes g := by
    intro i hDir
    have hi : i ≠ r'.inum := fun he => hNotDir (he ▸ hDir)
    rw [hOther i hi] at hDir ⊢
    exact hRange i hDir
  have hOwned' : Owned g (r' ::ₘ l) := by
    intro i hType
    by_cases hi : i = r'.inum
    · exact .inr ⟨r', hMem, hi.symm⟩
    · rw [hOther i hi] at hType
      rcases hOwned i hType with hLinks | ⟨r1, hr1, hInum⟩
      · exact .inl (by rw [hOther i hi]; exact hLinks)
      · exact .inr ⟨r1, mem_cons_of_mem hr1, hInum⟩
  rw [if_pos rfl, linkTo_eq]
  rw [← hg] at hv
  apply wp_call (hv.nameiparent hDirs' hRange' hRoot hOwned' (mem_cons_of_mem hr) new)
  rintro (_ | ⟨dp, name⟩) w ⟨-, hRes⟩
  · exact wp_post (Turn.linkBad hOwned (hg ▸ hRes.1)) fun _ x hx _ => hx.files
  obtain ⟨r'', rfl, hw, -⟩ := hRes
  apply wp_call (hw.linkIn quiet_tame (mem_cons_self _ _) (mem_cons_of_mem hMem) (fun _ => by decide)
    (hRange' r''.inum) (.free ..) name)
  rintro ok x ⟨-, ⟨rfl, hx⟩ | ⟨rfl, -, off, -, hx⟩⟩
  · apply wp_call (Turn.drop_owned hOwned' hx)
    rintro _ y ⟨-, hy⟩
    rw [if_neg (by decide)]
    exact wp_post (Turn.linkBad hOwned (hg ▸ hy)) fun _ z hz _ => hz.files
  · apply wp_call (Turn.drop hx)
    rintro _ y ⟨f1, -, -, -, hy⟩
    rw [if_pos rfl]
    apply wp_call hy.drop
    rintro _ z ⟨f2, -, -, -, hz⟩
    apply wp_call hz.endOp
    exact fun _ _ _ => wp_val fun h0 => absurd h0 (by decide)

/-! ## Making inodes -/

omit hDirs hRange hRoot in
lemma Turn.di_eq {q : Quota} (h : Turn s sb l L f q) (hr : r ∈ l) (hL : r.ip ∈ L) :
    (s.itable r.ip).di = s.inode r.inum ∧ s.Live s.inode r.inum := by
  obtain ⟨e, hJob, hCounted, -⟩ := h
  have hMain := hJob.view.consistent.cached r.ip (by rw [hJob.view.ref]; exact hCounted.pos hr)
    (by rw [hJob.view.valid]; exact hCounted.valid r.ip hL)
  rw [hJob.view.inum, hCounted.inum r hr] at hMain
  exact hMain

omit hDirs hRange hRoot in
lemma modDi_iupdate_sameRoom {ip : Ip} {i : Nat} (hOk : s.sb.Ok) (hInum : (s.itable ip).inum < s.sb.ninodes)
    (hne : (s.itable ip).inum ≠ i) (g : Dinode → Dinode) :
    wp (modDi ip g) (fun _ => True) (fun _ t => wp (iupdate ip) (fun _ => True) (fun _ u => SameRoom i s u) t) s := by
  unfold modDi modInode
  rw [wp_update]
  obtain ⟨t, ht⟩ : ∃ t, t = s.setInode ip { s.itable ip with di := g (s.itable ip).di } := ⟨_, rfl⟩
  have hStill : Still s t := ht ▸ Still.setInode ..
  have hEntry : (t.itable ip).inum = (s.itable ip).inum := by
    rw [ht]
    simp [FsState.setInode]
  change wp _ _ _ (s.setInode ip { s.itable ip with di := g (s.itable ip).di })
  rw [← ht]
  apply wp_post (iupdate_sameRoom (i := i) (hStill.sb ▸ hOk) (by rw [hEntry, hStill.sb]; exact hInum) (by rw [hEntry]; exact hne))
  exact fun _ u hu => (hStill.sameRoom i).trans hu

omit hDirs hRange hRoot in
lemma createEnd_result (dp ip : Ip) (isDir ok : Bool) :
    wp (createEnd dp ip isDir ok) (fun _ => True) (fun res _ => res ≠ none ↔ ok = true) s := by
  unfold createEnd
  cases ok with
  | true =>
    rw [if_pos rfl]
    apply wp_call (wp_true _ _)
    intro _ t _
    apply wp_call (wp_true _ _)
    exact fun _ _ _ => wp_val (by simp)
  | false =>
    rw [if_neg (by decide)]
    apply wp_call (wp_true _ _)
    intro _ t _
    apply wp_call (wp_true _ _)
    intro _ t _
    apply wp_call (wp_true _ _)
    intro _ t _
    apply wp_call (wp_true _ _)
    exact fun _ _ _ => wp_val (by simp)

def Room (s : FsState) (d : Nat) : Prop :=
  (∃ i, 0 < i ∧ i < s.sb.ninodes ∧ (s.files i).type = 0) ∧ ¬ NoSpace s (s.inode d) (s.files d)

omit hRoot in
lemma Turn.createIn_room {name : Text} (h : Turn s sb (r ::ₘ l) {r.ip} f .free) (hType : type ≠ 0) (hPlain : type ≠ tDir)
    (hDir : (f r.inum).type = tDir) (hAbsent : ∀ o, ¬ (f r.inum).Names o name) :
    wp (Fs.createIn r.ip name type major minor) (fun _ => True) (fun res _ => res ≠ none ↔ Room s r.inum) s := by
  have hMem : r ∈ r ::ₘ l := mem_cons_self _ _
  have hFiles := h.files
  have hView : Consistent s ∧ s.sb = sb := by
    obtain ⟨e, hJob, -⟩ := h
    exact ⟨hJob.view.consistent, hJob.view.sb⟩
  obtain ⟨hOk, hsb⟩ := hView
  have hLive := (h.di_eq hMem (mem_singleton_self _)).2
  rw [createIn_eq]
  apply wp_call (wp_weaken_stop (h.getInode (E := Quiet) hMem (mem_singleton_self _)) fun _ _ => trivial)
  rintro d t ⟨rfl, hDev, hInum, -, -⟩
  rw [hDev, hInum]
  apply wp_call (wp_weaken_stop (wp_both (h.ialloc quiet_tame hType trivial)
    (ialloc_sameRoom hOk.ok hLive.2 rootdev type)) fun _ _ => trivial)
  rintro (_ | ip) u ⟨hu, hRoom⟩
  · apply wp_call (wp_true _ _)
    refine fun _ _ _ => wp_val ⟨fun hne => absurd rfl hne, ?_⟩
    rintro ⟨⟨i, hPos, hLt, hFree⟩, -⟩
    rw [hFiles] at hFree
    exact absurd hFree (hu.2 i hPos (hsb ▸ hLt))
  obtain ⟨i, hPos, hLt, hFree, hu⟩ := hu
  have hne : i ≠ r.inum := by
    rintro rfl
    rw [hDir] at hFree
    cases hFree
  obtain ⟨r', hr'⟩ : ∃ r' : Ref, r' = ⟨ip, i, false⟩ := ⟨_, rfl⟩
  have hip : ip = r'.ip := by rw [hr']
  have hi : i = r'.inum := by rw [hr']
  rw [← hr'] at hu
  rw [hi] at hu hne
  rw [hip]
  have hMem' : r' ∈ r' ::ₘ r ::ₘ l := mem_cons_self _ _
  have hMemDir : r ∈ r' ::ₘ r ::ₘ l := mem_cons_of_mem hMem
  have hIn' : r'.ip ∈ insert r'.ip ({r.ip} : Finset Ip) := Finset.mem_insert_self _ _
  have hIn : r.ip ∈ insert r'.ip ({r.ip} : Finset Ip) := Finset.mem_insert_of_mem (mem_singleton_self _)
  have hFresh : r'.ip ∉ ({r.ip} : Finset Ip) := by
    rw [Finset.mem_singleton]
    exact hu.ne_of_inum_ne hMemDir hMem' hne
  -- the disk changes only in the new inode
  apply wp_call (wp_weaken_stop (wp_both (hu.ilock quiet_tame hMem' fun _ => by decide)
    (hu.ilock_still (E := fun _ => True) hMem' hFresh fun _ => trivial)) fun _ _ => trivial)
  rintro _ v ⟨⟨-, -, hv⟩, hStill⟩
  have hvTable : v.sb.Ok ∧ (v.itable r'.ip).inum = r'.inum ∧ r'.inum < v.sb.ninodes := by
    have hLt' := (hv.range hMem').2
    obtain ⟨e, hJob, hCounted, -⟩ := hv
    exact ⟨hJob.view.consistent.ok, by rw [hJob.view.inum, hCounted.inum r' hMem'], by rw [hJob.view.sb]; exact hLt'⟩
  obtain ⟨hvOk, hvInum, hvLt⟩ := hvTable
  apply wp_call (wp_weaken_stop (wp_both (hv.setAttr quiet_tame hMem' hIn' trivial trivial
    (fun x => { x with major := major, minor := minor, nlink := 1 }) (fun n => { n with major := major, minor := minor, nlink := 1 })
    (fun _ => ⟨rfl, rfl, rfl⟩) fun _ _ => rfl)
    (modDi_iupdate_sameRoom (i := r.inum) hvOk (by rw [hvInum]; exact hvLt) (by rw [hvInum]; exact hne) _)) fun _ _ => trivial)
  rintro _ w0 ⟨hw0, hw0'⟩
  apply wp_call (wp_weaken_stop (wp_both hw0 hw0') fun _ _ => trivial)
  rintro _ w ⟨hw, hRoom'⟩
  rw [update_self, update_idem] at hw
  have hAll : SameRoom r.inum t w := (hRoom.trans (hStill.sameRoom r.inum)).trans hRoom'
  have hDirNode : Function.update f r'.inum ⟨type, major, minor, 1, 0, fun _ => 0⟩ r.inum = f r.inum := update_of_ne hne.symm _ _
  apply wp_call (wp_weaken_stop (hw.getInode (E := Quiet) hMem' hIn') fun _ _ => trivial)
  rintro x y ⟨rfl, -⟩
  rw [Names.dotsIn, if_neg (by simpa using hPlain), pure_bind, Names.entryIn, if_pos rfl]
  have hCount := hw.dirlink_count (hDirs.update fun hNo => absurd hNo hPlain) (hRange.update fun hNo => absurd hNo hPlain)
    (by rw [hDirNode]; exact hDir) name hMemDir hIn x.inum
  apply wp_call hCount
  intro ok z hWhen
  apply wp_post (createEnd_result r.ip r'.ip _ ok)
  intro res _ hRes
  rw [hDirNode, (hw.di_eq hMemDir hIn).1, hAll.noSpace_iff hOk hLive] at hWhen
  have hTrue : ok = true ↔ ¬ NoSpace t (t.inode r.inum) (f r.inum) := by
    rw [← Bool.not_eq_false, hWhen, or_iff_right (by rw [not_exists]; exact hAbsent)]
  rw [hRes, hTrue, Room, hFiles]
  exact ⟨fun hSpace => ⟨⟨i, hPos, hsb ▸ hLt, hFree⟩, hSpace⟩, And.right⟩

omit hDirs hRange hRoot in
lemma live_of_type {i : Nat} (h : (s.files i).type ≠ 0) : s.Live s.inode i := by
  by_contra hNot
  unfold FsState.files FsState.nodes at h
  rw [if_neg hNot] at h
  exact h rfl

omit hDirs hRange hRoot in
lemma room_congr {d : Nat} (h : SameRoom d s t) (hOk : Consistent s) (hUsed : (s.files d).type ≠ 0) (hFiles : t.files = s.files) :
    Room t d ↔ Room s d := by
  unfold Room
  rw [hFiles, h.sb, h.noSpace_iff hOk (live_of_type hUsed)]

omit hRoot in
lemma Turn.createAt_room (h : Turn s sb (r ::ₘ l) ∅ f .free) (hType : type ≠ 0) (hPlain : type ≠ tDir) (name : Text) :
    wp (Names.createAt r.ip name type major minor) (fun _ => True) (fun res _ =>
      match res with
      | .failed => ¬ Room s r.inum
      | .found _ => True
      | .made _ => Room s r.inum) s := by
  have hMem : r ∈ r ::ₘ l := mem_cons_self _ _
  have hOk : Consistent s := by
    obtain ⟨e, hJob, -⟩ := h
    exact hJob.view.consistent
  unfold Names.createAt
  apply wp_call (wp_weaken_stop (wp_both (h.ilock quiet_tame hMem fun _ => by decide)
    (h.ilock_still (E := fun _ => True) hMem (Finset.notMem_empty _) fun _ => trivial)) fun _ _ => trivial)
  rintro _ t ⟨⟨-, hUsed, ht⟩, hStill⟩
  rw [insert_empty_eq] at ht
  apply wp_call (wp_weaken_stop (ht.dirlookup quiet_tame hMem (mem_singleton_self _) (hRange r.inum) name) fun _ _ => trivial)
  rintro (_ | ⟨ip, off⟩) u ⟨hDir, hu⟩
  · obtain ⟨rfl, hAbsent⟩ := hu
    apply wp_call (ht.createIn_room hDirs hRange hType hPlain hDir hAbsent)
    intro res _ hWhen
    rw [room_congr (hStill.sameRoom r.inum) hOk (by rw [h.files]; exact hUsed) (by rw [ht.files, h.files])] at hWhen
    cases res with
    | none => exact wp_val fun hRoom => absurd rfl (hWhen.mpr hRoom)
    | some ip => exact wp_val (hWhen.mp (by simp))
  · apply wp_call (wp_true _ _)
    exact fun _ _ _ => wp_val trivial

def Creates (s : FsState) (i : Nat) (path : Text) : Prop :=
  ∃ d name, parentTarget s.files i path = some (d, name) ∧ binding (s.files d) (key name) = none ∧ Room s d

omit hDirs hRange hRoot in
lemma not_creates_of_none {i : Nat} {path : Text} (h : parentTarget s.files i path = none) : ¬ Creates s i path := by
  rintro ⟨d, name, hEq, -⟩
  rw [h] at hEq
  cases hEq

omit hDirs hRange hRoot in
lemma creates_iff {i d : Nat} {path name : Text} (h : parentTarget s.files i path = some (d, name)) :
    Creates s i path ↔ binding (s.files d) (key name) = none ∧ Room s d := by
  constructor
  · rintro ⟨d', name', hEq, hRest⟩
    obtain ⟨rfl, rfl⟩ := Prod.mk.injEq .. ▸ Option.some.inj (h.symm.trans hEq)
    exact hRest
  · exact fun hRest => ⟨d, name, h, hRest⟩

lemma Turn.create (hUsed : ∀ r ∈ l, (f r.inum).type ≠ 0) (hOwned : Owned f l) (h : Turn s sb l ∅ f .free) (hr : r ∈ l)
    (hType : type ≠ 0) (path : Text) :
    wp (Fs.create r.ip path type major minor) Quiet (fun res t =>
      match res with
      | none => Turn t sb l ∅ f .free ∧
          (type ≠ tDir → ¬ Creates s (if path.head? = some slash then rootino else r.inum) path)
      | some ip =>
          (∃ r' : Ref, r'.ip = ip ∧ r'.loaded = true ∧ type = tFile ∧ (f r'.inum).type ≠ tDir ∧ Turn t sb (r' ::ₘ l) {ip} f .free ∧
            ¬ Creates s (if path.head? = some slash then rootino else r.inum) path) ∨
          ∃ i f', (f i).type = 0 ∧ (f' i).type = type ∧ (f' i).nlink ≠ 0 ∧ Turn t sb (⟨ip, i, true⟩ ::ₘ l) {ip} f' .free ∧
            (type ≠ tDir → Creates s (if path.head? = some slash then rootino else r.inum) path)) s := by
  have hOk : Consistent s := by
    obtain ⟨e, hJob, -⟩ := h
    exact hJob.view.consistent
  have hFiles := h.files
  rw [create_eq]
  apply wp_call (h.nameiparent hDirs hRange hRoot hOwned hr path)
  rintro (_ | ⟨dp, name⟩) t ⟨hStill, hRes⟩
  · obtain ⟨ht, hNone⟩ := hRes
    rw [← hFiles] at hNone
    exact wp_val ⟨ht, fun _ => not_creates_of_none hNone⟩
  obtain ⟨d, rfl, ht, hTarget⟩ := hRes
  rw [← hFiles] at hTarget
  have hAt : wp (Names.createAt d.ip name type major minor) (fun _ => True) (fun res _ => type ≠ tDir →
      match res with
      | .failed => ¬ Room t d.inum
      | .found _ => True
      | .made _ => Room t d.inum) t := by
    by_cases hPlain : type = tDir
    · apply wp_post (wp_true _ _)
      exact fun _ _ _ hNot => absurd hPlain hNot
    · apply wp_post (ht.createAt_room hDirs hRange hType hPlain name)
      exact fun _ _ hRoom _ => hRoom
  apply wp_call (wp_weaken_stop (wp_both (ht.createAt quiet_tame (fun _ => by decide) (hRange d.inum) (.free ..) name hType major minor) hAt)
    fun _ he => he.1)
  rintro res u ⟨⟨hDir, b, hu⟩, hRoom⟩
  have hSame : Room t d.inum ↔ Room s d.inum :=
    room_congr (hStill.sameRoom d.inum) hOk (by rw [hFiles, hDir]; decide) (by rw [ht.files, hFiles])
  rw [hSame] at hRoom
  have hUnbound : binding (s.files d.inum) (key name) = none ↔ ∀ o, ¬ (f d.inum).Names o name := by
    rw [hFiles]
    exact (hDirs d.inum hDir).binding_eq_none
  cases res with
  | failed =>
    obtain ⟨hAbsent, f1, f', hFails, hDrops, hu⟩ := hu
    have hf : f1 = f := by
      cases hFails with
      | clean => rfl
      | orphan i n unused _ _ _ held =>
        obtain ⟨r1, hr1, rfl⟩ := held
        exact absurd unused (hUsed r1 hr1)
    subst hf
    have hAlone : ∀ r' ∈ l, r'.inum = d.inum → r'.ip = d.ip := by
      intro r' hr' hInum
      have hEq := ht.ip_eq (mem_cons_of_mem hr') (mem_cons_self d l) hInum
      exact hEq
    have hKept : f' = f1 := hDrops.eq_of_kept (hOwned d.inum (by rw [hDir]; decide)) hAlone
    subst hKept
    refine wp_val ⟨hu, fun hPlain => ?_⟩
    rw [creates_iff hTarget]
    exact fun hNot => hRoom hPlain hNot.2
  | made ip =>
    obtain ⟨i, off, f', hFree, hAbsent, -, hDrops, hu⟩ := hu
    have hne : i ≠ d.inum := by
      rintro rfl
      rw [hDir] at hFree
      cases hFree
    have hNew : f' i = newNode type major minor i d.inum := by
      have hMade : created f d.inum i off name type major minor i = newNode type major minor i d.inum := by
        unfold created
        rw [update_of_ne hne, update_self]
      cases hDrops with
      | keep => exact hMade
      | free => rw [update_of_ne hne, hMade]
    have hShape : (f' i).type = type ∧ (f' i).nlink ≠ 0 := by
      rw [hNew]
      unfold newNode
      split <;> exact ⟨rfl, (by decide : (1 : Int16) ≠ 0)⟩
    refine wp_val (.inr ⟨i, f', hFree, hShape.1, hShape.2, hu, fun hPlain => ?_⟩)
    rw [creates_iff hTarget, hUnbound]
    exact ⟨hAbsent, hRoom hPlain⟩
  | found ip =>
    obtain ⟨off, hNamed, hu⟩ := hu
    obtain ⟨r', hr'⟩ : ∃ r' : Ref, r' = ⟨ip, ((f d.inum).dirent off).inum.toNat, false⟩ := ⟨_, rfl⟩
    have hip : ip = r'.ip := by rw [hr']
    have hTaken : ¬ Creates s (if path.head? = some slash then rootino else r.inum) path := by
      rw [creates_iff hTarget, hUnbound]
      exact fun hNot => hNot.1 off hNamed
    rw [← hr', Multiset.cons_swap] at hu
    rw [hip]
    have hMem : r' ∈ r' ::ₘ l := mem_cons_self _ _
    apply wp_call (Turn.drop_owned (hOwned.mono (Multiset.le_cons_self _ _)) hu)
    rintro _ v ⟨-, hv⟩
    apply wp_call (hv.ilock quiet_tame hMem fun _ => by decide)
    rintro _ w ⟨-, -, hw⟩
    rw [insert_empty_eq] at hw
    apply wp_call (hw.getInode hMem (mem_singleton_self _))
    rintro x y ⟨rfl, -, -, hx, -⟩
    rw [hx, wp_ite]
    constructor
    · rintro ⟨rfl, hKind⟩
      refine wp_val (.inl ⟨{ r' with loaded := true }, rfl, rfl, rfl, ?_, hw.load (mem_singleton_self _) true, hTaken⟩)
      intro hNot
      rcases hKind with hKind | hKind <;> exact absurd (hKind.symm.trans hNot) (by decide)
    · intro _
      apply wp_call (Turn.unlock_drop hOwned hw)
      exact fun _ z hz => wp_val ⟨hz, fun _ => hTaken⟩

lemma makeNode_failed (hUsed : ∀ r ∈ l, (f r.inum).type ≠ 0) (hOwned : Owned f l) (h : Turn s sb l ∅ f .free) (hr : r ∈ l)
    (hType : type ≠ 0) (path : Option Text) :
    wp (makeNode r.ip path type major minor) Quiet (fun res t => res = -1 → t.files = f) s := by
  unfold makeNode
  apply wp_call (h.beginOp quiet_tame)
  intro _ t ht
  cases path with
  | none => exact wp_post ht.ends fun _ u hu _ => hu.files
  | some path =>
    apply wp_call (ht.create hDirs hRange hRoot hUsed hOwned hr hType path)
    rintro (_ | ip) u hu
    · exact wp_post hu.1.ends fun _ v hv _ => hv.files
    · have hMade : ∃ r' g, r'.ip = ip ∧ Turn u sb (r' ::ₘ l) {ip} g .free := by
        grind
      obtain ⟨r', g, rfl, hTurn⟩ := hMade
      apply wp_call (hTurn.iunlockput quiet_tame (mem_singleton_self _) (.free ..))
      rintro _ v ⟨g', -, hv⟩
      rw [erase_singleton] at hv
      apply wp_call hv.endOp
      exact fun _ _ _ => wp_val fun h0 => absurd h0 (by decide)

end

/-! ## Opening -/

section

variable {k : Kernel} {me : Pid} {ip : Ip} {x : Fp}

def Full (k : Kernel) (me : Pid) : Prop := (∀ x, (k.ftable x).ref ≠ 0) ∨ ∀ fd, (k.proc me).ofile fd ≠ none

structure SameFs (k t : Kernel) : Prop where
  fs : t.fs = k.fs
  cwd : ∀ p, (t.proc p).cwd = (k.proc p).cwd

lemma SameFs.trans {t u : Kernel} (h : SameFs k t) (h' : SameFs t u) : SameFs k u :=
  ⟨h'.fs.trans h.fs, fun p => (h'.cwd p).trans (h.cwd p)⟩

lemma pipeclose_sameFs (me : Pid) (pi : Nat) (writable : Bool) :
    wp (pipeclose me pi writable) (fun _ => True) (fun _ t => SameFs k t) k := by
  have hWake : ∀ (chan : Chan) (j : Pid) (p : Proc), (wakeOne me chan j p).cwd = p.cwd := by
    intro chan j p
    unfold wakeOne
    split <;> rfl
  unfold pipeclose wakeup Vm.kfree Vm.memset
  simp only [wp_bind, wp_ite, wp_update, wp_read, wp_onMem, wp_pure, wp_stop]
  refine ⟨fun _ => ⟨fun _ => ⟨fun _ => trivial, fun _ => ?_⟩, fun _ => ?_⟩, fun _ => ⟨fun _ => ⟨fun _ => trivial, fun _ => ?_⟩, fun _ => ?_⟩⟩
  all_goals exact ⟨rfl, fun p => hWake _ p _⟩

lemma fileclose_sameFs (hType : (k.ftable x).type = .none ∨ (k.ftable x).type = .pipe) :
    wp (fileclose me x) (fun _ => True) (fun _ t => SameFs k t) k := by
  unfold fileclose
  rw [wp_bind, wp_getFile, wp_ite]
  refine ⟨fun _ => (wp_stop _).mpr trivial, fun _ => ?_⟩
  rw [wp_ite]
  refine ⟨fun _ => (wp_modFile _ _).mpr ⟨rfl, fun _ => rfl⟩, fun _ => ?_⟩
  rw [wp_bind, wp_modFile]
  rcases hType with hType | hType <;> simp only [hType]
  · exact wp_val ⟨rfl, fun _ => rfl⟩
  · exact wp_post (pipeclose_sameFs me _ _) fun _ t ht => ⟨ht.fs, ht.cwd⟩

lemma filealloc_full : wp filealloc (fun _ => True) (fun res t => SameFs k t ∧ t.proc = k.proc ∧
    match res with
    | none => ∀ x, (k.ftable x).ref ≠ 0
    | some x => (k.ftable x).ref = 0 ∧ (t.ftable x).type = (k.ftable x).type) k := by
  unfold filealloc
  rw [wp_bind, wp_read]
  cases hFind : (List.finRange nfile).find? fun x => (k.ftable x).ref == 0 with
  | none =>
    refine wp_val ⟨⟨rfl, fun _ => rfl⟩, rfl, fun x hx => ?_⟩
    exact absurd (List.find?_eq_none.mp hFind x (List.mem_finRange x)) (by simpa using hx)
  | some x =>
    have hZero : (k.ftable x).ref = 0 := by simpa using List.find?_some hFind
    rw [wp_bind, wp_modFile, wp_pure]
    exact ⟨⟨rfl, fun _ => rfl⟩, rfl, hZero, by rw [setFile_ftable_same]⟩

lemma fdalloc_full : wp (fdalloc me x) (fun _ => True) (fun res t => SameFs k t ∧ t.ftable = k.ftable ∧
    (res = none ↔ ∀ fd, (k.proc me).ofile fd ≠ none)) k := by
  unfold fdalloc
  rw [wp_bind, wp_getProc]
  cases hFind : (List.finRange nofile).find? fun d => ((k.proc me).ofile d).isNone with
  | none =>
    refine wp_val ⟨⟨rfl, fun _ => rfl⟩, rfl, fun _ fd hNone => ?_, fun _ => rfl⟩
    exact absurd (List.find?_eq_none.mp hFind fd (List.mem_finRange fd)) (by simp [hNone])
  | some fd =>
    have hNone : (k.proc me).ofile fd = none := by simpa using List.find?_some hFind
    unfold setOfile
    rw [wp_bind, wp_modProc, wp_pure]
    refine ⟨⟨rfl, fun p => ?_⟩, rfl, nofun, fun hAll => absurd hNone (hAll fd)⟩
    by_cases hp : p = me
    · rw [hp, setProc_proc_same]
    · rw [setProc_proc_of_ne _ hp]

lemma bad_result {s : FsState} (ip : Ip) :
    wp (do iput ip; endOp; return -1 : FsM Int) (fun _ => True) (fun res _ => res = -1) s := by
  apply wp_call (wp_true _ _)
  intro _ t _
  apply wp_call (wp_true _ _)
  exact fun _ _ _ => wp_val rfl

lemma openLocked_full (hTable : ∀ x, (k.ftable x).ref = 0 → (k.ftable x).type = .none ∨ (k.ftable x).type = .pipe)
    {R : FsState → Prop} (hUnlock : wp (iunlock ip) (fun _ => True) (fun _ s => R s) k.fs) (omode : Nat) :
    wp (openLocked me ip omode) (fun _ => True) (fun res t =>
      (res = none → R t.fs ∧ ∀ p, (t.proc p).cwd = (k.proc p).cwd) ∧
      ((k.fs.itable ip).di.type ≠ tDevice → (res = none ↔ Full k me))) k := by
  have hFails : ∀ t, SameFs k t → Full k me ∨ (k.fs.itable ip).di.type = tDevice →
      wp (do onFs (iunlock ip); return none : KM (Option Fd)) (fun _ => True) (fun res t =>
        (res = none → R t.fs ∧ ∀ p, (t.proc p).cwd = (k.proc p).cwd) ∧
        ((k.fs.itable ip).di.type ≠ tDevice → (res = none ↔ Full k me))) t := by
    intro t ht hWhy
    rw [wp_bind, wp_onFs, ht.fs]
    apply wp_post hUnlock
    intro _ s hs
    exact wp_val ⟨fun _ => ⟨hs, ht.cwd⟩, fun hPlain => ⟨fun _ => hWhy.resolve_right hPlain, fun _ => rfl⟩⟩
  unfold openLocked
  rw [wp_bind, wp_read, wp_ite]
  refine ⟨fun hBad => hFails k ⟨rfl, fun _ => rfl⟩ (.inr hBad.1), fun _ => ?_⟩
  apply wp_call filealloc_full
  rintro (_ | x) t ⟨ht, htProc, hRes⟩
  · exact hFails t ht (.inl (.inl hRes))
  obtain ⟨hZero, hKind⟩ := hRes
  apply wp_call fdalloc_full
  rintro (_ | fd) u ⟨hu, huTable, hWhen⟩
  · apply wp_call (fileclose_sameFs (by rw [huTable, hKind]; exact hTable x hZero))
    intro _ v hv
    rw [htProc] at hWhen
    exact hFails v ((ht.trans hu).trans hv) (.inl (.inr (hWhen.mp rfl)))
  · have hRoom : ¬ Full k me := by
      rintro (hFiles | hFds)
      · exact hFiles x hZero
      · rw [htProc] at hWhen
        cases hWhen.mpr hFds
    have hDone : ∀ v, wp (do onFs (iunlock ip); return some fd : KM (Option Fd)) (fun _ => True) (fun res t =>
        (res = none → R t.fs ∧ ∀ p, (t.proc p).cwd = (k.proc p).cwd) ∧
        ((k.fs.itable ip).di.type ≠ tDevice → (res = none ↔ Full k me))) v := by
      intro v
      apply wp_call (wp_true _ _)
      exact fun _ w _ => wp_val ⟨nofun, fun _ => ⟨nofun, fun hFull => absurd hFull hRoom⟩⟩
    rw [wp_ite]
    constructor
    all_goals
      intro _
      apply wp_call (wp_true _ _)
      intro _ v _
      apply wp_call (wp_true _ _)
      intro _ w _
      rw [wp_ite]
      refine ⟨fun _ => ?_, fun _ => hDone w⟩
      apply wp_call (wp_true _ _)
      exact fun _ y _ => hDone y

lemma openInode_full (hTable : ∀ x, (k.ftable x).ref = 0 → (k.ftable x).type = .none ∨ (k.ftable x).type = .pipe)
    {R : FsState → Prop} (hUnlock : wp (iunlock ip) (fun _ => True) (fun _ s =>
      wp (do iput ip; endOp; return -1 : FsM Int) (fun _ => True) (fun _ t => R t) s) k.fs) (omode : Nat) :
    wp (openInode me ip omode) (fun _ => True) (fun res t =>
      (res = -1 → R t.fs ∧ ∀ p, (t.proc p).cwd = (k.proc p).cwd) ∧
      ((k.fs.itable ip).di.type ≠ tDevice → (res = -1 ↔ Full k me))) k := by
  rw [openInode_eq]
  apply wp_call (openLocked_full hTable hUnlock omode)
  rintro (_ | fd) t ⟨hNone, hWhen⟩
  · obtain ⟨hRest, hCwd⟩ := hNone rfl
    have hEnd : (do onFs (iput ip); onFs endOp; return -1 : KM Int) = onFs (do iput ip; endOp; return -1) := by
      simp only [onFs_bind, onFs_pure]
    dsimp only
    rw [hEnd, wp_onFs]
    apply wp_mono (wp_both hRest (bad_result ip)) (fun _ _ => trivial)
    rintro res s ⟨hs, rfl⟩
    exact ⟨fun _ => ⟨hs, hCwd⟩, fun hPlain => ⟨fun _ => (hWhen hPlain).mp rfl, fun _ => rfl⟩⟩
  · apply wp_call (wp_true _ _)
    intro _ u _
    have hne : ((fd.val : Nat) : Int) ≠ -1 := by omega
    exact wp_val ⟨fun hRes => absurd hRes hne,
      fun hPlain => ⟨fun hRes => absurd hRes hne, fun hFull => absurd ((hWhen hPlain).mpr hFull) (by simp)⟩⟩

end

/-! ## Calls that fail -/

inductive NameCall where
  | «open» (path : Option Text) (omode : Nat)
  | mkdir (path : Option Text)
  | mknod (path : Option Text) (major minor : Int16)
  | link (old new : Option Text)
  | unlink (path : Option Text)
  | chdir (path : Option Text)

def NameCall.sys (me : Pid) : NameCall → KM Int
  | .open path omode => sysOpen me path omode
  | .mkdir path => withCwd me fun cwd => sysMkdir cwd path
  | .mknod path major minor => withCwd me fun cwd => sysMknod cwd path major minor
  | .link old new => withCwd me fun cwd => sysLink cwd old new
  | .unlink path => withCwd me fun cwd => sysUnlink cwd path
  | .chdir path => sysChdir me path

def NameCall.Strands (me : Pid) (k : Kernel) : NameCall → Prop
  | .open path omode => omode &&& oCreate ≠ 0 ∧ Full k me ∧
      ∃ p cwd, path = some p ∧ (k.proc me).cwd = some cwd ∧ Creates k.fs (startInum k.fs cwd p) p
  | _ => False

section

variable {k : Kernel} {me : Pid} {cwd : Ip}

lemma AgreeOn.wp_of {α : Type} {P : Kernel → Prop} {E : Stop → Prop} {Q : α → Kernel → Prop} {m m' : KM α} (h : AgreeOn P m m')
    (hk : P k) (hm : wp m' E Q k) : wp m E Q k := by
  unfold wp at hm ⊢
  rwa [h k hk]

lemma mem_refs_of_cwd (hCwd : (k.proc me).cwd = some cwd) : (⟨cwd, (k.fs.itable cwd).inum, false⟩ : Ref) ∈ Settled.refs k := by
  apply mem_add.mpr
  right
  rw [Multiset.mem_sum]
  refine ⟨me, Finset.mem_univ _, ?_⟩
  unfold Settled.cwdRef
  rw [hCwd]
  exact Multiset.mem_singleton_self _

lemma creates_congr {s t : FsState} (hStill : Still s t) (hFiles : t.files = s.files) (hOk : Consistent s) (i : Nat) (path : Text) :
    Creates t i path ↔ Creates s i path := by
  cases hTarget : parentTarget s.files i path with
  | none => exact iff_of_false (not_creates_of_none (hFiles ▸ hTarget)) (not_creates_of_none hTarget)
  | some p =>
    obtain ⟨d, name⟩ := p
    have hDir : (s.files d).type = tDir := by
      grind [Option.bind_eq_bind, Option.bind_eq_some_iff, parentTarget]
    rw [creates_iff hTarget, creates_iff (hFiles ▸ hTarget), hFiles,
      room_congr (hStill.sameRoom d) hOk (by rw [hDir]; decide) hFiles]

variable (hk : Settled k) (hDirs : DirsOk k.fs.files) (hOwned : Owned k.fs.files (Settled.refs k))

include hk hDirs hOwned

lemma sysChdir_failed (path : Option Text) :
    wp (sysChdir me path) (fun _ => True) (fun res t => res = -1 → t.fs.files = k.fs.files ∧ (t.proc me).cwd = (k.proc me).cwd) k := by
  have hTurn := hk.turn
  have hRoot : 1 < k.fs.sb.ninodes := (hk.world (I := AnyFiles) trivial).choose_spec.choose_spec.root
  cases path with
  | none =>
    unfold sysChdir
    rw [wp_bind, wp_onFs]
    apply wp_mono (hTurn.beginOp quiet_tame) (fun _ _ => trivial)
    intro _ s hs
    rw [wp_bind, wp_getProc, wp_bind, wp_onFs]
    apply wp_post hs.endOp
    exact fun _ u hu => wp_val fun _ => ⟨hu.files, rfl⟩
  | some path =>
  cases hCwd : (k.proc me).cwd with
  | none =>
    unfold sysChdir
    rw [wp_bind, wp_onFs]
    apply wp_mono (hTurn.beginOp quiet_tame) (fun _ _ => trivial)
    intro _ s hs
    have hNone : ((k.setFs s).proc me).cwd = none := hCwd
    rw [wp_bind, wp_getProc, hNone]
    exact (wp_stop _).mpr trivial
  | some cwd =>
    have hMem := mem_refs_of_cwd hCwd
    apply (sysChdir_in path).wp_of hCwd
    rw [wp_bind, wp_onFs]
    apply wp_mono (hTurn.beginOp quiet_tame) (fun _ _ => trivial)
    intro _ s hs
    rw [wp_bind, wp_onFs]
    apply wp_mono (hs.namei hDirs hk.range hRoot hOwned hMem path) (fun _ _ => trivial)
    rintro (_ | ip) t ht
    · dsimp only
      rw [wp_bind, wp_onFs]
      apply wp_post ht.endOp
      exact fun _ u hu => wp_val fun _ => ⟨hu.files, hCwd⟩
    · obtain ⟨r', rfl, ht⟩ := ht
      dsimp only
      rw [wp_bind, wp_onFs]
      apply wp_mono (ht.ilock quiet_tame (mem_cons_self _ _) fun _ => by decide) (fun _ _ => trivial)
      rintro _ u ⟨-, -, hu⟩
      rw [insert_empty_eq] at hu
      rw [wp_bind, wp_read, wp_ite]
      constructor
      · intro _
        rw [wp_bind, wp_onFs]
        apply wp_mono (Turn.unlock_drop hOwned hu) (fun _ _ => trivial)
        intro _ v hv
        rw [wp_bind, wp_onFs]
        apply wp_post hv.endOp
        exact fun _ w hw => wp_val fun _ => ⟨hw.files, hCwd⟩
      · intro _
        apply wp_call (wp_true _ _)
        intro _ v _
        apply wp_call (wp_true _ _)
        intro _ v _
        apply wp_call (wp_true _ _)
        intro _ v _
        apply wp_call (wp_true _ _)
        exact fun _ _ _ => wp_val fun h0 => absurd h0 (by decide)

omit hDirs hOwned in
lemma fresh_files : ∀ x, (k.ftable x).ref = 0 → (k.ftable x).type = .none ∨ (k.ftable x).type = .pipe := by
  intro x hZero
  have hOpen := hk.opened x
  cases hType : (k.ftable x).type with
  | none => exact .inl rfl
  | pipe => exact .inr rfl
  | inode => exact absurd (hOpen (.inl hType)).1 (by omega)
  | device => exact absurd (hOpen (.inr hType)).1 (by omega)

omit hDirs in
/-- `openInode` on a file that was there before leaves all files as they were when it fails. -/
lemma openInode_failed {s : FsState} {r : Ref} (h : Turn s k.fs.sb (r ::ₘ Settled.refs k) {r.ip} k.fs.files .free) (omode : Nat) :
    wp (openInode me r.ip omode) (fun _ => True) (fun res t =>
      res = -1 → t.fs.files = k.fs.files ∧ (t.proc me).cwd = (k.proc me).cwd) (k.setFs s) := by
  have hUnlock : wp (iunlock r.ip) (fun _ => True) (fun _ t =>
      wp (do iput r.ip; endOp; return -1 : FsM Int) (fun _ => True) (fun _ u => u.files = k.fs.files) t) s := by
    apply wp_mono (h.iunlock quiet_tame (mem_cons_self _ _)) (fun _ _ => trivial)
    intro _ t ht
    rw [erase_singleton] at ht
    exact wp_mono (ht.gives_up hOwned) (fun _ _ => trivial) fun _ u hu => hu.files
  apply wp_post (openInode_full (k := k.setFs s) (fun x hx => fresh_files hk x hx) hUnlock omode)
  exact fun res t ht hRes => ⟨(ht.1 hRes).1, (ht.1 hRes).2 me⟩

omit hDirs hOwned in
/-- `openInode` on a file that `create` has made fails exactly if a table is full, and the file stays. -/
lemma openInode_made {s : FsState} {ip : Ip} {i : Nat} {f' : Nat → Node}
    (h : Turn s k.fs.sb (⟨ip, i, true⟩ ::ₘ Settled.refs k) {ip} f' .free) (hFree : (k.fs.files i).type = 0) (hType : (f' i).type = tFile)
    (hLinks : (f' i).nlink ≠ 0) (omode : Nat) :
    wp (openInode me ip omode) (fun _ => True) (fun res t =>
      (res = -1 → t.fs.files = k.fs.files ∧ (t.proc me).cwd = (k.proc me).cwd) ↔ ¬ Full k me) (k.setFs s) := by
  have hUnlock : wp (iunlock ip) (fun _ => True) (fun _ t =>
      wp (do iput ip; endOp; return -1 : FsM Int) (fun _ => True) (fun _ u => u.files ≠ k.fs.files) t) s := by
    apply wp_mono (h.iunlock quiet_tame (mem_cons_self _ _)) (fun _ _ => trivial)
    intro _ t ht
    rw [erase_singleton] at ht
    apply wp_call (ht.drop_kept (.inl hLinks))
    intro _ u hu
    apply wp_call hu.endOp
    intro _ v hv
    rw [wp_pure, hv.files]
    intro hSame
    rw [hSame, hFree] at hType
    cases hType
  have hPlain : (s.itable ip).di.type ≠ tDevice := by
    have hDi := h.di_type (mem_cons_self _ _) rfl
    dsimp only at hDi
    rw [hDi, hType]
    decide
  have hOpen : wp (openInode me ip omode) _ _ (k.setFs s) := openInode_full (by exact fun x hx => fresh_files hk x hx) hUnlock omode
  apply wp_post hOpen
  rintro res t ⟨hStays, hWhen⟩
  have hWhen : res = -1 ↔ Full k me := hWhen hPlain
  rw [← hWhen]
  exact ⟨fun hKept hRes => (hStays hRes).1 (hKept hRes).1, fun hNot hRes => absurd hRes hNot⟩

lemma sysOpen_failed (path : Option Text) (omode : Nat) :
    wp (sysOpen me path omode) (fun _ => True) (fun res t =>
      (res = -1 → t.fs.files = k.fs.files ∧ (t.proc me).cwd = (k.proc me).cwd) ↔ ¬ (NameCall.open path omode).Strands me k) k := by
  have hTurn := hk.turn
  have hRoot : 1 < k.fs.sb.ninodes := (hk.world (I := AnyFiles) trivial).choose_spec.choose_spec.root
  rcases path with _ | path
  · unfold sysOpen
    rw [wp_bind, wp_getProc, wp_pure]
    refine iff_of_true (fun _ => ⟨rfl, rfl⟩) ?_
    rintro ⟨-, -, p, cwd, hPath, -⟩
    cases hPath
  cases hCwd : (k.proc me).cwd with
  | none =>
    unfold sysOpen
    rw [wp_bind, wp_getProc, hCwd]
    exact (wp_stop _).mpr trivial
  | some cwd =>
    obtain ⟨i, hi⟩ : ∃ i, i = startInum k.fs cwd path := ⟨_, rfl⟩
    have hStrands : (NameCall.open (some path) omode).Strands me k ↔ omode &&& oCreate ≠ 0 ∧ Full k me ∧ Creates k.fs i path := by
      constructor
      · rintro ⟨hMode, hFull, p, cwd', hPath, hCwd', hCreates⟩
        cases hPath
        cases hCwd.symm.trans hCwd'
        exact ⟨hMode, hFull, hi ▸ hCreates⟩
      · rintro ⟨hMode, hFull, hCreates⟩
        exact ⟨hMode, hFull, path, cwd, rfl, hCwd, hi ▸ hCreates⟩
    have hMem := mem_refs_of_cwd hCwd
    rw [hStrands]
    apply (sysOpen_in path omode).wp_of hCwd
    rw [wp_bind, wp_onFs]
    apply wp_mono (wp_and (hTurn.beginOp quiet_tame) (beginOp_still (by decide))) (fun _ _ => trivial)
    rintro _ s ⟨hs, hStill⟩
    rw [wp_ite]
    constructor
    · intro hMode
      rw [wp_bind, wp_onFs]
      apply wp_mono (hs.create hDirs hk.range hRoot hk.used hOwned hMem (by decide : tFile ≠ 0) path) (fun _ _ => trivial)
      have hStart : (if path.head? = some slash then rootino else (k.fs.itable cwd).inum) = i := hi ▸ rfl
      simp only [hStart, creates_congr hStill (hs.files.trans hTurn.files.symm) hk.consistent i path]
      rintro (_ | ip) t ht
      · dsimp only
        rw [wp_bind, wp_onFs]
        apply wp_post ht.1.endOp
        exact fun _ u hu => wp_val (iff_of_true (fun _ => ⟨hu.files, hCwd⟩) fun hNot => ht.2 (by decide) hNot.2.2)
      · rcases ht with ⟨r', rfl, -, -, -, ht, hNot⟩ | ⟨j, f', hFree, hType, hLinks, ht, hCreates⟩
        · apply wp_post (openInode_failed hk hOwned ht omode)
          intro res u hu
          rw [hCwd] at hu
          exact iff_of_true hu fun hAll => hNot hAll.2.2
        · apply wp_post (openInode_made hk ht hFree hType hLinks omode)
          intro res u hu
          rw [hCwd] at hu
          rw [hu]
          exact ⟨fun hRoom hAll => hRoom hAll.2.1, fun hNot hFull => hNot ⟨hMode, hFull, hCreates (by decide)⟩⟩
    · intro hMode
      have hNot : ¬ (omode &&& oCreate ≠ 0 ∧ Full k me ∧ Creates k.fs i path) := fun hAll => hMode hAll.1
      rw [wp_bind, wp_onFs]
      apply wp_mono (hs.namei hDirs hk.range hRoot hOwned hMem path) (fun _ _ => trivial)
      rintro (_ | ip) t ht
      · dsimp only
        rw [wp_bind, wp_onFs]
        apply wp_post ht.endOp
        exact fun _ u hu => wp_val (iff_of_true (fun _ => ⟨hu.files, hCwd⟩) hNot)
      · obtain ⟨r', rfl, ht⟩ := ht
        dsimp only
        rw [wp_bind, wp_onFs]
        apply wp_mono (ht.ilock quiet_tame (mem_cons_self _ _) fun _ => by decide) (fun _ _ => trivial)
        rintro _ u ⟨-, -, hu⟩
        rw [insert_empty_eq] at hu
        rw [wp_bind, wp_read, wp_ite]
        constructor
        · intro _
          rw [wp_bind, wp_onFs]
          apply wp_mono (Turn.unlock_drop hOwned hu) (fun _ _ => trivial)
          intro _ v hv
          rw [wp_bind, wp_onFs]
          apply wp_post hv.endOp
          exact fun _ w hw => wp_val (iff_of_true (fun _ => ⟨hw.files, hCwd⟩) hNot)
        · intro _
          apply wp_post (openInode_failed hk hOwned hu omode)
          intro res v hv
          rw [hCwd] at hv
          exact iff_of_true hv hNot

omit hk hDirs hOwned in
lemma withCwd_failed {call : Ip → FsM Int} (h : ∀ cwd, (k.proc me).cwd = some cwd →
      wp (call cwd) Quiet (fun res s => res = -1 → s.files = k.fs.files) k.fs) :
    wp (withCwd me call) (fun _ => True) (fun res t =>
      res = -1 → t.fs.files = k.fs.files ∧ (t.proc me).cwd = (k.proc me).cwd) k := by
  unfold withCwd
  rw [wp_bind, wp_getProc]
  cases hCwd : (k.proc me).cwd with
  | none => exact (wp_stop _).mpr trivial
  | some cwd =>
    dsimp only
    rw [wp_onFs]
    exact wp_mono (h cwd hCwd) (fun _ _ => trivial) fun res s hs hRes => ⟨hs hRes, hCwd⟩

/-- A call that returns -1 leaves every inode, with what is in it, and the current directory as they
were, except where `sys_open` strands a new file. -/
theorem failed_calls_change_nothing (c : NameCall) {res : Int} {t : Kernel} (hRun : c.sys me k = .ok (res, t)) :
    (res = -1 → t.fs.files = k.fs.files ∧ (t.proc me).cwd = (k.proc me).cwd) ↔ ¬ c.Strands me k := by
  have hTurn := hk.turn
  have hRoot : 1 < k.fs.sb.ninodes := (hk.world (I := AnyFiles) trivial).choose_spec.choose_spec.root
  cases c with
  | «open» path omode =>
    have hMain := wp_ok (sysOpen_failed hk hDirs hOwned path omode) hRun
    exact hMain
  | mkdir path =>
    refine iff_of_true (wp_ok (withCwd_failed fun cwd hCwd => ?_) hRun) id
    exact makeNode_failed hDirs hk.range hRoot hk.used hOwned hTurn (mem_refs_of_cwd hCwd) (by decide) path
  | mknod path major minor =>
    refine iff_of_true (wp_ok (withCwd_failed fun cwd hCwd => ?_) hRun) id
    exact makeNode_failed hDirs hk.range hRoot hk.used hOwned hTurn (mem_refs_of_cwd hCwd) (by decide) path
  | link old new =>
    refine iff_of_true (wp_ok (withCwd_failed fun cwd hCwd => ?_) hRun) id
    exact sysLink_failed hDirs hk.range hRoot hOwned hTurn (mem_refs_of_cwd hCwd) old new
  | unlink path =>
    refine iff_of_true (wp_ok (withCwd_failed fun cwd hCwd => ?_) hRun) id
    exact sysUnlink_failed hDirs hk.range hRoot hOwned hTurn (mem_refs_of_cwd hCwd) path
  | chdir path => exact iff_of_true (wp_ok (sysChdir_failed hk hDirs hOwned path) hRun) id

end

namespace NamesSample

lemma owned_of_check {s : FsState} {l : Multiset Ref} (h : ∀ i < s.sb.ninodes, (s.files i).type ≠ 0 → (s.files i).nlink ≠ 0) :
    Owned s.files l := by
  intro i hType
  exact .inl (h i (live_of_type hType).1 hType)

lemma kernel_owned : Owned kernel.fs.files (Settled.refs kernel) := owned_of_check (by decide +kernel)

def fails (c : NameCall) (k : Kernel) (test : Kernel → Bool) : Bool :=
  match c.sys p0 k with
  | .ok (res, t) => res == -1 && test t
  | .error _ => false

lemma exists_of_fails (c : NameCall) (k : Kernel) (test : Kernel → Bool) (h : fails c k test = true) :
    ∃ t, c.sys p0 k = .ok (-1, t) ∧ test t = true := by
  unfold fails at h
  split at h
  · grind
  · cases h

def crowded : Kernel :=
  { kernel with
    ftable := fun x => if x = ⟨0, nfile_pos⟩ then ⟨.pipe, 16, true, false, 0, ip0, 0, 0⟩ else kernel.ftable x
    proc := fun p => { kernel.proc p with ofile := fun _ => if p = p0 then some ⟨0, nfile_pos⟩ else none } }

lemma crowded_settled : Settled crowded where
  consistent := fs_consistent
  unlocked := by decide +kernel
  counts := by decide +kernel
  opened := by decide +kernel
  cwd := by decide +kernel
  plain := by decide +kernel
  range := kernel_settled.range

end NamesSample

open NamesSample in
/-- `mkdir("a")` where "a" is a file. -/
theorem failed_calls_change_nothing_mkdir : ∃ t, (NameCall.mkdir (some [97])).sys p0 kernel = .ok (-1, t) ∧
    t.fs.files = kernel.fs.files ∧ (t.proc p0).cwd = (kernel.proc p0).cwd := by
  obtain ⟨t, hRun, -⟩ := exists_of_fails (.mkdir (some [97])) kernel (fun _ => true) (by decide +kernel)
  exact ⟨t, hRun, (failed_calls_change_nothing kernel_settled kernel_dirsOk kernel_owned _ hRun).mpr id rfl⟩

open NamesSample in
/-- `open("n", O_CREATE | O_RDWR)` by a process without a free descriptor returns -1 and leaves the new file. -/
theorem open_strands_file : ∃ t, Settled crowded ∧ DirsOk crowded.fs.files ∧ Owned crowded.fs.files (Settled.refs crowded) ∧
    (NameCall.open (some [110]) (oCreate ||| oRdwr)).sys p0 crowded = .ok (-1, t) ∧
    binding (crowded.fs.files 1) [110] = none ∧ binding (t.fs.files 1) [110] = some 4 := by
  obtain ⟨t, hRun, hTest⟩ := exists_of_fails (.open (some [110]) (oCreate ||| oRdwr)) crowded
    (fun t => binding (t.fs.files 1) [110] == some 4) (by decide +kernel)
  exact ⟨t, crowded_settled, kernel_dirsOk, owned_of_check (by decide +kernel), hRun, by decide +kernel, beq_iff_eq.mp hTest⟩

end Xv6K230.Names
