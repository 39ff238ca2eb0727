import Xv6K230.Fs.Directory

/-! # The table as the references that callers hold

A caller knows its references and which entries are locked, and nothing else of the inode table.
-/

namespace Xv6K230.Names

open Multiset (countP_cons_of_pos mem_cons mem_cons_of_mem mem_cons_self)
open Fs Prog

/-- A counted reference to inode `inum` in entry `ip`; `loaded` if the holder relies on the
entry to be valid. -/
structure Ref where
  ip : Ip
  inum : Nat
  loaded : Bool
  deriving DecidableEq

structure Counted (e : Ip → Entry) (l : Multiset Ref) (L : Finset Ip) : Prop where
  ref : ∀ ip, (e ip).ref = l.countP fun r => r.ip = ip
  inum : ∀ r ∈ l, (e r.ip).inum = r.inum
  loaded : ∀ r ∈ l, r.loaded = true → (e r.ip).valid = true
  locked : ∀ ip, (e ip).locked = true ↔ ip ∈ L
  valid : ∀ ip ∈ L, (e ip).valid = true

namespace Counted

variable {e e' : Ip → Entry} {l : Multiset Ref} {L : Finset Ip} {r : Ref} {ip : Ip} {i : Nat}

lemma pos (h : Counted e l L) (hr : r ∈ l) : 0 < (e r.ip).ref := by
  have hCount : 0 < l.countP fun r' => r'.ip = r.ip := Multiset.countP_pos.mpr ⟨r, hr, rfl⟩
  rw [h.ref]
  exact_mod_cast hCount

lemma took (h : Counted e l L) (hTook : Took e i ip e') (hUnlocked : (e ip).ref = 0 → ip ∉ L) :
    Counted e' (⟨ip, i, false⟩ ::ₘ l) L := by
  have hOld : ∀ r ∈ l, e' r.ip = { e r.ip with ref := (e' r.ip).ref } := fun r hr => hTook.same (h.pos hr)
  refine ⟨?_, ?_, ?_, ?_, ?_⟩
  · intro jp
    by_cases hj : jp = ip
    · subst hj
      rw [hTook.ref, h.ref, countP_cons_of_pos (p := fun r : Ref => r.ip = jp) _ rfl]
      push_cast
      rfl
    · rw [hTook.of_ne hj, h.ref, Multiset.countP_cons_of_neg _ fun he => hj he.symm]
  · intro r hr
    rcases mem_cons.mp hr with rfl | hr
    · exact hTook.inum
    · rw [hOld r hr]
      exact h.inum r hr
  · intro r hr hl
    rcases mem_cons.mp hr with rfl | hr
    · cases hl
    · rw [hOld r hr]
      exact h.loaded r hr hl
  · intro jp
    rw [hTook.locked]
    exact h.locked jp
  · intro jp hj
    have hv := h.valid jp hj
    cases hTook with
    | again =>
      grind
    | first hZero =>
      grind

lemma same (h : Counted e l L) (hSame : SameRefs e e') (hUsed : ∀ ip ∈ L, 0 < (e ip).ref) : Counted e' l L := by
  have hOld : ∀ r ∈ l, e' r.ip = e r.ip := fun r hr => (hSame r.ip).2.2 (h.pos hr)
  refine ⟨?_, ?_, ?_, ?_, ?_⟩
  · intro ip
    rw [(hSame ip).1]
    exact h.ref ip
  · intro r hr
    rw [hOld r hr]
    exact h.inum r hr
  · intro r hr
    rw [hOld r hr]
    exact h.loaded r hr
  · intro ip
    rw [(hSame ip).2.1]
    exact h.locked ip
  · intro ip hip
    rw [(hSame ip).2.2 (hUsed ip hip)]
    exact h.valid ip hip

lemma ilock (h : Counted e l L) : Counted (lockedTable e ip) l (insert ip L) := by
  have hAt : ∀ jp, lockedTable e ip jp = if jp = ip then { e ip with locked := true, valid := true } else e jp := fun jp =>
    Function.update_apply ..
  refine ⟨?_, ?_, ?_, ?_, ?_⟩
  · intro jp
    rw [hAt]
    split
    · rename_i hj
      subst hj
      exact h.ref jp
    · exact h.ref jp
  · grind [h.inum]
  · intro r hr hl
    rw [hAt]
    split
    · rfl
    · exact h.loaded r hr hl
  · intro jp
    rw [hAt, Finset.mem_insert]
    split
    · rename_i hj
      simp [hj]
    · rename_i hj
      simp only [hj, false_or]
      exact h.locked jp
  · intro jp hj
    rw [hAt]
    split
    · rfl
    · rename_i hne
      exact h.valid jp ((Finset.mem_insert.mp hj).resolve_left hne)

lemma iunlock (h : Counted e l L) : Counted (unlockedTable e ip) l (L.erase ip) := by
  have hAt : ∀ jp, unlockedTable e ip jp = if jp = ip then { e ip with locked := false } else e jp := fun jp =>
    Function.update_apply ..
  have hSame : ∀ jp, (unlockedTable e ip jp).ref = (e jp).ref ∧ (unlockedTable e ip jp).inum = (e jp).inum ∧
      (unlockedTable e ip jp).valid = (e jp).valid := by
    intro jp
    rw [hAt]
    split
    · rename_i hj
      rw [hj]
      exact ⟨rfl, rfl, rfl⟩
    · exact ⟨rfl, rfl, rfl⟩
  refine ⟨?_, ?_, ?_, ?_, ?_⟩
  · intro jp
    rw [(hSame jp).1]
    exact h.ref jp
  · intro r hr
    rw [(hSame r.ip).2.1]
    exact h.inum r hr
  · intro r hr hl
    rw [(hSame r.ip).2.2]
    exact h.loaded r hr hl
  · intro jp
    rw [hAt, Finset.mem_erase]
    split
    · rename_i hj
      simp [hj]
    · rename_i hj
      rw [h.locked jp]
      simp [hj]
  · intro jp hj
    rw [(hSame jp).2.2]
    exact h.valid jp (Finset.mem_of_mem_erase hj)

lemma drop {x : Entry} (h : Counted e (r ::ₘ l) L) (hRef : x.ref = (e r.ip).ref - 1) (hLocked : x.locked = (e r.ip).locked)
    (hSame : r.ip ∈ L ∨ (∃ r' ∈ l, r'.ip = r.ip) → x.inum = (e r.ip).inum ∧ x.valid = (e r.ip).valid) :
    Counted (Function.update e r.ip x) l L := by
  have hAt : ∀ jp, Function.update e r.ip x jp = if jp = r.ip then x else e jp := fun jp => Function.update_apply ..
  refine ⟨?_, ?_, ?_, ?_, ?_⟩
  · intro jp
    have hOld := h.ref jp
    rw [hAt]
    split
    · rename_i hj
      rw [hj] at hOld ⊢
      rw [countP_cons_of_pos (p := fun r' : Ref => r'.ip = r.ip) _ rfl] at hOld
      rw [hRef, hOld]
      push_cast
      omega
    · rename_i hj
      rw [Multiset.countP_cons_of_neg _ fun he => hj he.symm] at hOld
      exact hOld
  · intro r' hr'
    rw [hAt]
    split
    · rename_i hj
      rw [(hSame (.inr ⟨r', hr', hj⟩)).1, ← hj]
      exact h.inum r' (mem_cons_of_mem hr')
    · exact h.inum r' (mem_cons_of_mem hr')
  · intro r' hr' hl
    rw [hAt]
    split
    · rename_i hj
      rw [(hSame (.inr ⟨r', hr', hj⟩)).2, ← hj]
      exact h.loaded r' (mem_cons_of_mem hr') hl
    · exact h.loaded r' (mem_cons_of_mem hr') hl
  · intro jp
    rw [hAt]
    split
    · rename_i hj
      rw [hLocked, hj]
      exact h.locked r.ip
    · exact h.locked jp
  · intro jp hj
    rw [hAt]
    split
    · rename_i hji
      rw [hji] at hj
      rw [(hSame (.inl hj)).2]
      exact h.valid r.ip hj
    · exact h.valid jp hj

end Counted

/-- What becomes of the files when `r` is dropped and `l` is left: if it is the last reference to
an inode without links, of which its holder knows that it is loaded, then the inode is freed. -/
inductive Drops (l : Multiset Ref) (r : Ref) (f : Nat → Node) : (Nat → Node) → Prop where
  | free (alone : ∀ r' ∈ l, r'.ip ≠ r.ip) (unlinked : (f r.inum).nlink = 0) : Drops l r f (Function.update f r.inum Node.free)
  | keep (h : (∃ r' ∈ l, r'.ip = r.ip) ∨ r.loaded = false ∨ (f r.inum).nlink ≠ 0) : Drops l r f f

/-- A consistent state in which callers hold the references `l`, among them the running
one, which has locked the entries `L` and has the quota `q`. -/
def Turn (s : FsState) (sb : Superblock) (l : Multiset Ref) (L : Finset Ip) (f : Nat → Node) (q : Quota) : Prop :=
  ∃ e, Job s sb e f q ∧ Counted e l L ∧ ∀ ip ∈ L, ∃ r ∈ l, r.ip = ip

namespace Turn

variable {E : Stop → Prop} {s t : FsState} {sb : Superblock} {l : Multiset Ref} {L : Finset Ip} {f : Nat → Node} {q : Quota}
  {r r' : Ref} {ip dp : Ip} {i off : Nat}

lemma use (h : Turn s sb l L f q) (n : Nat) : Turn s sb l L f (q.use n) := by
  obtain ⟨e, hJob, hCounted, hHeld⟩ := h
  exact ⟨e, hJob.use n, hCounted, hHeld⟩

lemma ip_eq (h : Turn s sb l L f q) (hr : r ∈ l) (hr' : r' ∈ l) (hInum : r.inum = r'.inum) : r.ip = r'.ip := by
  obtain ⟨e, hJob, hCounted, -⟩ := h
  apply hJob.table.unique _ _ (hCounted.pos hr) (hCounted.pos hr')
  rw [hCounted.inum r hr, hCounted.inum r' hr', hInum]

lemma inum_eq (h : Turn s sb l L f q) (hr : r ∈ l) (hr' : r' ∈ l) (hip : r.ip = r'.ip) : r.inum = r'.inum := by
  obtain ⟨e, -, hCounted, -⟩ := h
  rw [← hCounted.inum r hr, ← hCounted.inum r' hr', hip]

lemma range (h : Turn s sb l L f q) (hr : r ∈ l) : 0 < r.inum ∧ r.inum < sb.ninodes := by
  obtain ⟨e, hJob, hCounted, -⟩ := h
  rw [← hCounted.inum r hr]
  exact hJob.table.inum r.ip (hCounted.pos hr)

lemma allocated (h : Turn s sb l L f q) (hr : r ∈ l) (hl : r.ip ∈ L ∨ r.loaded = true) : (f r.inum).type ≠ 0 := by
  obtain ⟨e, hJob, hCounted, -⟩ := h
  rw [← hCounted.inum r hr]
  apply hJob.view.live (hCounted.pos hr)
  rcases hl with hl | hl
  · exact hCounted.valid r.ip hl
  · exact hCounted.loaded r hr hl

lemma pos_held {e : Ip → Entry} (h : Counted e l L) (hHeld : ∀ ip ∈ L, ∃ r ∈ l, r.ip = ip) (hip : ip ∈ L) : 0 < (e ip).ref := by
  obtain ⟨r, hr, rfl⟩ := hHeld ip hip
  exact h.pos hr

lemma di_type (h : Turn s sb l L f q) (hr : r ∈ l) (hl : r.loaded = true) : (s.itable r.ip).di.type = (f r.inum).type := by
  obtain ⟨e, hJob, hCounted, -⟩ := h
  rw [hJob.view.type (hCounted.pos hr) (hCounted.loaded r hr hl), hCounted.inum r hr]

variable (hE : q.Tame E)

include hE

lemma iget (h : Turn s sb l L f q) (hi : 0 < i ∧ i < sb.ninodes) :
    wp (Fs.iget rootdev i) E (fun ip t => Turn t sb (⟨ip, i, false⟩ ::ₘ l) L f q) s := by
  obtain ⟨e, hJob, hCounted, hHeld⟩ := h
  apply wp_post (hJob.iget hE hi)
  rintro ip t ⟨e', hTook, ht⟩
  refine ⟨e', ht, hCounted.took hTook ?_, ?_⟩
  · intro hZero hip
    exact (pos_held hCounted hHeld hip).ne' hZero
  · intro jp hj
    obtain ⟨r, hr, hrj⟩ := hHeld jp hj
    exact ⟨r, mem_cons_of_mem hr, hrj⟩

omit hE in
lemma idup (h : Turn s sb l L f q) (hr : r ∈ l) :
    wp (Fs.idup r.ip) E (fun ip t => ip = r.ip ∧ Turn t sb (⟨r.ip, r.inum, false⟩ ::ₘ l) L f q) s := by
  obtain ⟨e, hJob, hCounted, hHeld⟩ := h
  apply wp_post (hJob.idup (hCounted.pos hr))
  rintro _ t ⟨hip, e', hTook, ht⟩
  rw [hCounted.inum r hr] at hTook
  refine ⟨hip, e', ht, hCounted.took hTook ?_, ?_⟩
  · intro hZero
    exact absurd hZero (hCounted.pos hr).ne'
  · intro jp hj
    obtain ⟨r', hr', hrj⟩ := hHeld jp hj
    exact ⟨r', mem_cons_of_mem hr', hrj⟩

lemma ilock (h : Turn s sb l L f q) (hr : r ∈ l) (hNoType : (f r.inum).type = 0 → E .ilockNoType) :
    wp (Fs.ilock r.ip) E (fun _ t => r.ip ∉ L ∧ (f r.inum).type ≠ 0 ∧ Turn t sb l (insert r.ip L) f q) s := by
  obtain ⟨e, hJob, hCounted, hHeld⟩ := h
  apply wp_post (hJob.ilock hE (hCounted.pos hr) fun _ => by rw [hCounted.inum r hr]; exact hNoType)
  rintro _ t ⟨hLocked, hType, ht⟩
  rw [hCounted.inum r hr] at hType
  refine ⟨?_, hType, _, ht, hCounted.ilock, ?_⟩
  · intro hip
    rw [(hCounted.locked r.ip).mpr hip] at hLocked
    cases hLocked
  · intro jp hj
    rcases Finset.mem_insert.mp hj with rfl | hj
    · exact ⟨r, hr, rfl⟩
    · exact hHeld jp hj

lemma iunlock (h : Turn s sb l L f q) (hr : r ∈ l) :
    wp (Fs.iunlock r.ip) E (fun _ t => Turn t sb l (L.erase r.ip) f q) s := by
  obtain ⟨e, hJob, hCounted, hHeld⟩ := h
  apply wp_post (hJob.iunlock hE (hCounted.pos hr))
  intro _ t ht
  exact ⟨_, ht, hCounted.iunlock, fun jp hj => hHeld jp (Finset.mem_of_mem_erase hj)⟩

omit hE in
lemma getInode (h : Turn s sb l L f q) (hr : r ∈ l) (hL : r.ip ∈ L) :
    wp (Fs.getInode r.ip) E (fun x t => t = s ∧ x.dev = rootdev ∧ x.inum = r.inum ∧ x.di.type = (f r.inum).type ∧
      x.di.nlink = (f r.inum).nlink) s := by
  obtain ⟨e, hJob, hCounted, -⟩ := h
  have hPos := hCounted.pos hr
  have hValid := hCounted.valid r.ip hL
  have hInum := hCounted.inum r hr
  rw [wp_getInode]
  refine ⟨rfl, ?_, ?_, ?_, ?_⟩
  · rw [hJob.view.dev]
    exact hJob.table.dev r.ip hPos
  · rw [hJob.view.inum, hInum]
  · rw [hJob.view.type hPos hValid, hInum]
  · rw [hJob.view.nlink hPos hValid, hInum]

lemma dirlookup (h : Turn s sb l L f q) (hr : r ∈ l) (hL : r.ip ∈ L)
    (hRange : (f r.inum).type = tDir → (f r.inum).InRange sb.ninodes) (name : Text) :
    wp (Fs.dirlookup r.ip name) E (fun res t => (f r.inum).type = tDir ∧
      match res with
      | none => t = s ∧ ∀ off, ¬ (f r.inum).Names off name
      | some (ip, off) => (f r.inum).Names off name ∧
          Turn t sb (⟨ip, ((f r.inum).dirent off).inum.toNat, false⟩ ::ₘ l) L f q) s := by
  obtain ⟨e, hJob, hCounted, hHeld⟩ := h
  have hInum := hCounted.inum r hr
  rw [← hInum] at hRange
  apply wp_post (hJob.dirlookup hE (hCounted.pos hr) (hCounted.valid r.ip hL) hRange name)
  rintro (_ | ⟨ip, off⟩) t ⟨hDir, hres⟩
  · rw [hInum] at hDir hres
    exact ⟨hDir, hres⟩
  · obtain ⟨hNames, e', hTook, ht⟩ := hres
    rw [hInum] at hDir hNames hTook
    refine ⟨hDir, hNames, e', ht, hCounted.took hTook ?_, ?_⟩
    · intro hZero hip
      exact (pos_held hCounted hHeld hip).ne' hZero
    · intro jp hj
      obtain ⟨r', hr', hrj⟩ := hHeld jp hj
      exact ⟨r', mem_cons_of_mem hr', hrj⟩

lemma dirlink (h : Turn s sb l L f q) (hr : r ∈ l) (hL : r.ip ∈ L)
    (hRange : (f r.inum).type = tDir → (f r.inum).InRange sb.ninodes) (hMap : q.HasMap sb)
    (hBlock : q.Has (sb.iblock r.inum)) (hRoom : q.Room 2) (name : Text) (inum : Nat) :
    wp (Fs.dirlink r.ip name inum) E (fun res t => (f r.inum).type = tDir ∧
      ((res = false ∧ Turn t sb l L f (q.use 2)) ∨
      (res = true ∧ (∀ off, ¬ (f r.inum).Names off name) ∧ ∃ off, (f r.inum).Vacant off ∧
        Turn t sb l L (Function.update f r.inum ((f r.inum).put off (Dirent.mk (UInt16.ofNat inum) name).toBytes))
          (q.use 2)))) s := by
  obtain ⟨e, hJob, hCounted, hHeld⟩ := h
  have hInum := hCounted.inum r hr
  rw [← hInum] at hRange hBlock
  apply wp_post (hJob.dirlink hE (hCounted.pos hr) (hCounted.valid r.ip hL) hRange hMap hBlock hRoom name inum)
  rintro res t ⟨hDir, hres⟩
  rw [hInum] at hDir hres
  refine ⟨hDir, ?_⟩
  rcases hres with ⟨hres, e', hSame, ht⟩ | ⟨hres, hAbsent, off, hVacant, ht⟩
  · exact .inl ⟨hres, e', ht, hCounted.same hSame fun ip hip => pos_held hCounted hHeld hip, hHeld⟩
  · exact .inr ⟨hres, hAbsent, off, hVacant, e, ht, hCounted, hHeld⟩

lemma isdirempty (h : Turn s sb l L f q) (hr : r ∈ l) (hL : r.ip ∈ L) :
    wp (Fs.isdirempty r.ip) E (fun res t => t = s ∧
      (res = true → ∀ off, 32 ≤ off → (f r.inum).Slot off → ((f r.inum).dirent off).inum = 0)) s := by
  obtain ⟨e, hJob, hCounted, -⟩ := h
  have hSpec := hJob.isdirempty hE (hCounted.pos hr) (hCounted.valid r.ip hL)
  rw [hCounted.inum r hr] at hSpec
  exact hSpec

lemma writeDirent (h : Turn s sb l L f q) (hr : r ∈ l) (hL : r.ip ∈ L) (hMap : q.HasMap sb)
    (hBlock : q.Has (sb.iblock r.inum)) (hRoom : q.Room 2) {b : Text} (hb : b.length = 16) (hOff : off % 16 = 0) :
    wp (writeiKernel r.ip b off) E (fun res t =>
      (res ≠ 16 ∧ Turn t sb l L f (q.use 2)) ∨
      (res = 16 ∧ off ≤ (f r.inum).size ∧ off + 16 ≤ 268 * 1024 ∧
        Turn t sb l L (Function.update f r.inum ((f r.inum).put off b)) (q.use 2))) s := by
  obtain ⟨e, hJob, hCounted, hHeld⟩ := h
  have hInum := hCounted.inum r hr
  rw [← hInum] at hBlock
  apply wp_post (hJob.writeDirent hE (hCounted.pos hr) (hCounted.valid r.ip hL) hMap hBlock hRoom hb hOff)
  rw [hInum]
  rintro res t (⟨hres, ht⟩ | ⟨hres, hLow, hMax, ht⟩)
  · exact .inl ⟨hres, e, ht, hCounted, hHeld⟩
  · exact .inr ⟨hres, hLow, hMax, e, ht, hCounted, hHeld⟩

lemma writei (h : Turn s sb l L f q) (hr : r ∈ l) (hL : r.ip ∈ L) {n : Nat} (hMap : q.HasMap sb)
    (hBlock : q.Has (sb.iblock r.inum)) (hRoom : q.Room (2 * spanned off n)) (src : CopyIn) :
    wp (Fs.writei r.ip src off n) E (fun _ t => ∃ size data,
      Turn t sb l L (Function.update f r.inum { f r.inum with size := size, data := data }) (q.use (2 * spanned off n))) s := by
  obtain ⟨e, hJob, hCounted, hHeld⟩ := h
  have hInum := hCounted.inum r hr
  rw [← hInum] at hBlock
  apply wp_post (hJob.writei hE (hCounted.pos hr) (hCounted.valid r.ip hL) hMap hBlock hRoom src)
  rw [hInum]
  rintro _ t ⟨size, data, ht⟩
  exact ⟨size, data, e, ht, hCounted, hHeld⟩

lemma itrunc (h : Turn s sb l L f q) (hr : r ∈ l) (hL : r.ip ∈ L) (hMap : q.HasMap sb)
    (hBlock : q.Has (sb.iblock r.inum)) (hRoom : q.Room 0) :
    wp (Fs.itrunc r.ip) E (fun _ t =>
      Turn t sb l L (Function.update f r.inum { f r.inum with size := 0, data := fun _ => 0 }) q) s := by
  obtain ⟨e, hJob, hCounted, hHeld⟩ := h
  have hInum := hCounted.inum r hr
  rw [← hInum] at hBlock
  apply wp_post (hJob.itrunc hE (hCounted.pos hr) (hCounted.valid r.ip hL) hMap hBlock hRoom)
  rw [hInum]
  exact fun _ t ht => ⟨e, ht, hCounted, hHeld⟩

lemma setAttr (h : Turn s sb l L f q) (hr : r ∈ l) (hL : r.ip ∈ L) (hBlock : q.Has (sb.iblock r.inum)) (hRoom : q.Room 0)
    (g : Dinode → Dinode) (G : Node → Node)
    (hg : ∀ d, (g d).type = d.type ∧ (g d).size = d.size ∧ (g d).addrs = d.addrs) (hG : ∀ d disk, (g d).node disk = G (d.node disk)) :
    wp (modDi r.ip g) E (fun _ t => wp (iupdate r.ip) E (fun _ u => Turn u sb l L (Function.update f r.inum (G (f r.inum))) q) t)
      s := by
  obtain ⟨e, hJob, hCounted, hHeld⟩ := h
  have hInum := hCounted.inum r hr
  rw [← hInum] at hBlock
  apply hJob.setAttr hE (hCounted.pos hr) (hCounted.valid r.ip hL) hBlock hRoom g G hg hG
  rw [hInum]
  exact fun t ht => ⟨e, ht, hCounted, hHeld⟩

lemma ialloc (h : Turn s sb l L f q) {type : UInt16} (hType : type ≠ 0) (hRoom : q.Room 1) :
    wp (Fs.ialloc rootdev type) E (fun res t =>
      match res with
      | none => t = s ∧ ∀ i, 0 < i → i < sb.ninodes → (f i).type ≠ 0
      | some ip => ∃ i, 0 < i ∧ i < sb.ninodes ∧ (f i).type = 0 ∧
          Turn t sb (⟨ip, i, false⟩ ::ₘ l) L (Function.update f i ⟨type, 0, 0, 0, 0, fun _ => 0⟩) (q.add (sb.iblock i))) s := by
  obtain ⟨e, hJob, hCounted, hHeld⟩ := h
  apply wp_post (hJob.ialloc hE hType hRoom)
  intro res t hres
  cases res with
  | none => exact hres
  | some ip =>
    obtain ⟨i, hPos, hLt, hFree, e', hTook, ht⟩ := hres
    refine ⟨i, hPos, hLt, hFree, e', ht, hCounted.took hTook ?_, ?_⟩
    · intro hZero hip
      exact (pos_held hCounted hHeld hip).ne' hZero
    · intro jp hj
      obtain ⟨r, hr, hrj⟩ := hHeld jp hj
      exact ⟨r, mem_cons_of_mem hr, hrj⟩

/-- What `iput` does, and that it frees exactly a loaded inode without links that nobody else refers to. -/
lemma iput_exact (h : Turn s sb (r ::ₘ l) L f q) (hL : r.ip ∈ L → ∃ r' ∈ l, r'.ip = r.ip)
    (hFree : (∀ r' ∈ l, r'.ip ≠ r.ip) → (f r.inum).nlink = 0 → q.HasMap sb ∧ q.Has (sb.iblock r.inum) ∧ q.Room 0) :
    wp (Fs.iput r.ip) E (fun _ t => ∃ f', Drops l r f f' ∧
      ((s.itable r.ip).ref = 1 ∧ (s.itable r.ip).valid = true ∧ (s.itable r.ip).di.nlink = 0 → f' ≠ f) ∧ Turn t sb l L f' q) s := by
  obtain ⟨e, hJob, hCounted, hHeld⟩ := h
  have hMem : r ∈ r ::ₘ l := mem_cons_self r l
  have hPos := hCounted.pos hMem
  have hInum := hCounted.inum r hMem
  have hHeld' : ∀ ip ∈ L, ∃ r' ∈ l, r'.ip = ip := by
    intro jp hj
    obtain ⟨r', hr', hrj⟩ := hHeld jp hj
    rcases mem_cons.mp hr' with rfl | hr'
    · rw [← hrj] at hj ⊢
      exact hL hj
    · exact ⟨r', hr', hrj⟩
  -- the count is one exactly if there is no other reference
  have hAlone : (e r.ip).ref = 1 ↔ ∀ r' ∈ l, r'.ip ≠ r.ip := by
    rw [hCounted.ref, countP_cons_of_pos (p := fun r' : Ref => r'.ip = r.ip) _ rfl]
    push_cast
    rw [add_eq_right, Nat.cast_eq_zero, Multiset.countP_eq_zero]
  have hUnlocked : (e r.ip).ref = 1 → (e r.ip).valid = true → (e r.ip).locked = false := by
    grind [hCounted.locked]
  apply wp_post (hJob.iput hE hPos hUnlocked fun hOne _ hLink => by
    rw [hInum] at hLink ⊢
    exact hFree (hAlone.mp hOne) hLink)
  rintro _ t ⟨e', f', hDropped, ht⟩
  cases hDropped with
  | free hOne hValid hLink =>
    rw [hInum] at hLink ht
    have hNew : Function.update f r.inum Node.free ≠ f := by
      intro hSame
      have hUsed := hJob.view.live hPos hValid
      rw [hInum, ← hSame, Function.update_self] at hUsed
      exact hUsed rfl
    refine ⟨_, .free (hAlone.mp hOne) hLink, fun _ => hNew, _, ht, ?_, hHeld'⟩
    refine hCounted.drop ?_ rfl ?_
    · simp only
      omega
    · grind
  | keep hNot =>
    have hNever : ¬ ((s.itable r.ip).ref = 1 ∧ (s.itable r.ip).valid = true ∧ (s.itable r.ip).di.nlink = 0) := by
      rintro ⟨hOne, hValid, hLink⟩
      rw [hJob.view.ref] at hOne
      rw [hJob.view.valid] at hValid
      rw [hJob.view.nlink hPos hValid] at hLink
      exact hNot ⟨hOne, hValid, hLink⟩
    refine ⟨f, .keep ?_, fun hFreed => absurd hFreed hNever, _, ht, hCounted.drop rfl rfl fun _ => ⟨rfl, rfl⟩, hHeld'⟩
    by_contra hAll
    rw [not_or, not_or, not_not] at hAll
    apply hNot
    refine ⟨hAlone.mpr ?_, ?_, ?_⟩
    · intro r' hr' hip
      exact hAll.1 ⟨r', hr', hip⟩
    · apply hCounted.loaded r hMem
      simpa using hAll.2.1
    · rw [hInum]
      exact hAll.2.2

lemma iput (h : Turn s sb (r ::ₘ l) L f q) (hL : r.ip ∈ L → ∃ r' ∈ l, r'.ip = r.ip)
    (hFree : (∀ r' ∈ l, r'.ip ≠ r.ip) → (f r.inum).nlink = 0 → q.HasMap sb ∧ q.Has (sb.iblock r.inum) ∧ q.Room 0) :
    wp (Fs.iput r.ip) E (fun _ t => ∃ f', Drops l r f f' ∧ Turn t sb l L f' q) s := by
  apply wp_post (h.iput_exact hE hL hFree)
  rintro _ t ⟨f', hDrops, -, ht⟩
  exact ⟨f', hDrops, ht⟩

omit hE in
lemma beginOp (h : Turn s sb l L f .free) (hE : Quota.free.Tame E) : wp Fs.beginOp E (fun _ t => Turn t sb l L f .free) s := by
  obtain ⟨e, hJob, hRest⟩ := h
  apply wp_post (beginOp_spec hE.calm hJob.view)
  exact fun _ t ht => ⟨e, ⟨ht, trivial⟩, hRest⟩

omit hE in
lemma endOp (h : Turn s sb l L f .free) : wp Fs.endOp E (fun _ t => Turn t sb l L f .free) s := by
  obtain ⟨e, hJob, hRest⟩ := h
  apply wp_post (endOp_spec hJob.view)
  exact fun _ t ht => ⟨e, ⟨ht, trivial⟩, hRest⟩

omit hE in
lemma load (h : Turn s sb (r ::ₘ l) L f q) (hL : r.ip ∈ L) (b : Bool) : Turn s sb ({ r with loaded := b } ::ₘ l) L f q := by
  obtain ⟨e, hJob, hCounted, hHeld⟩ := h
  refine ⟨e, hJob, ⟨?_, ?_, ?_, hCounted.locked, hCounted.valid⟩, ?_⟩
  · intro ip
    rw [hCounted.ref, Multiset.countP_cons, Multiset.countP_cons]
  · intro r' hr'
    rcases mem_cons.mp hr' with rfl | hr'
    · exact hCounted.inum r (mem_cons_self r l)
    · exact hCounted.inum r' (mem_cons_of_mem hr')
  · intro r' hr' hl
    rcases mem_cons.mp hr' with rfl | hr'
    · exact hCounted.valid r.ip hL
    · exact hCounted.loaded r' (mem_cons_of_mem hr') hl
  · intro ip hip
    obtain ⟨r', hr', hrip⟩ := hHeld ip hip
    rcases mem_cons.mp hr' with rfl | hr'
    · exact ⟨_, mem_cons_self _ l, hrip⟩
    · exact ⟨r', mem_cons_of_mem hr', hrip⟩

end Turn

end Xv6K230.Names
