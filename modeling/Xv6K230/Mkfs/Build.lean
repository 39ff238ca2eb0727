import Xv6K230.Mkfs.Contents

/-! # The image that `mkfs` leaves

`main` on any list of files.
-/

namespace Xv6K230.Mkfs

open List (append_assoc length_append length_cons map_cons)
open Fs Prog
open Function (update_idem update_of_ne update_self)

variable {E : Exit → Prop} {h h' : Host} {ty : Nat → UInt16} {c : Nat → Text} {i n : Nat} {files : List Input}

/-! ## What the files amount to -/

/-- The entries of the root for `files`, whose inodes start with `n`. -/
def entriesFrom : (n : Nat) → List Input → List Dirent
  | _, [] => []
  | n, f :: files => ⟨UInt16.ofNat n, f.shortname⟩ :: entriesFrom (n + 1) files

def rootEntries (files : List Input) : List Dirent := ⟨1, [46]⟩ :: ⟨1, [46, 46]⟩ :: entriesFrom 2 files

/-- The contents `c` with `files` added from inode `n` on. -/
def addAll : (n : Nat) → (Nat → Text) → List Input → Nat → Text
  | _, c, [] => c
  | n, c, f :: files =>
    addAll (n + 1) (fun i => if i = n then c n ++ f.reads.flatten
      else if i = 1 then c 1 ++ Dirent.toBytes ⟨UInt16.ofNat n, f.shortname⟩ else c i) files

def Input.Named (f : Input) : Prop := 47 ∉ f.base ∧ f.shortname.length ≤ dirsiz

instance (f : Input) : Decidable f.Named := inferInstanceAs (Decidable (_ ∧ _))

lemma length_le_addAll : ∀ (files : List Input) (n : Nat) (c : Nat → Text) (i : Nat), (c i).length ≤ (addAll n c files i).length
  | [], _, _, _ => le_rfl
  | f :: files, n, c, i => by
    refine le_trans ?_ (length_le_addAll files (n + 1) _ i)
    split_ifs with hn h1
    · rw [hn, length_append]
      exact Nat.le_add_right ..
    · rw [h1, length_append]
      exact Nat.le_add_right ..
    · exact le_rfl

/-! ## The files one by one -/

lemma appends_spec (i : Nat) : ∀ (chunks : List Text) {h : Host} {c : Nat → Text}, Represents h ty c → h.Has i →
    (¬ Room (Function.update c i (c i ++ chunks.flatten)) → ∀ e, E e) →
    wp (Prog.eachM (iappend i) chunks) E (fun _ h' => Represents h' ty (Function.update c i (c i ++ chunks.flatten)) ∧
      h'.freeinode = h.freeinode) h
  | [], h, c, hr, _, _ => by
    refine (wp_ret _).mpr ⟨?_, rfl⟩
    simpa using hr
  | p :: chunks, h, c, hr, hi, hE => by
    have hAll : Function.update (Function.update c i (c i ++ p)) i (Function.update c i (c i ++ p) i ++ chunks.flatten) =
        Function.update c i (c i ++ (p :: chunks).flatten) := by
      rw [update_idem, update_self, List.flatten_cons, append_assoc]
    have hStep := iappend_spec (E := E) hr hi p fun hFull => hE fun hRoom => hFull (hRoom.mono fun j => by
      by_cases hj : j = i
      · rw [hj, update_self, update_self, List.flatten_cons, ← append_assoc]
        exact (List.sublist_append_left ..).length_le
      · rw [update_of_ne hj, update_of_ne hj])
    apply wp_call hStep
    rintro _ h' ⟨hr', hFree⟩
    have hRest := appends_spec i chunks hr' ⟨hi.1, by rw [hFree]; exact hi.2⟩ (by rwa [hAll])
    rw [hAll, hFree] at hRest
    exact hRest

lemma addFile_spec (hr : Represents h ty c) (hi : h.Has 1) (hFree : h.freeinode < ninodes) (f : Input)
    (hE : ¬ (f.Named ∧ Room (addAll h.freeinode c [f])) → ∀ e, E e) :
    wp (addFile 1 f) E (fun _ h' => (∃ ty', Represents h' ty' (addAll h.freeinode c [f])) ∧ h'.freeinode = h.freeinode + 1) h := by
  unfold addFile
  rw [wp_ite]
  refine ⟨fun hSlash => (wp_stop _).mpr (hE (fun hc => hc.1.1 hSlash) _), fun hSlash => ?_⟩
  rw [wp_ite]
  refine ⟨fun hLong => (wp_stop _).mpr (hE (fun hc => absurd hLong (not_lt.mpr hc.1.2)) _), fun hLong => ?_⟩
  have hFull : ¬ Room (addAll h.freeinode c [f]) → ∀ e, E e := fun hNot => hE fun hc => hNot hc.2
  have hne : h.freeinode ≠ 1 := hi.2.ne'
  obtain ⟨n, hn⟩ : ∃ n, n = h.freeinode := ⟨_, rfl⟩
  have hOne : 1 < n := hn ▸ hi.2
  rw [← hn] at hFull hne ⊢
  obtain ⟨entry, hEntry⟩ : ∃ l, l = Dirent.toBytes ⟨UInt16.ofNat n, f.shortname⟩ := ⟨_, rfl⟩
  have hAdd : Function.update (Function.update c 1 (c 1 ++ entry)) n (Function.update c 1 (c 1 ++ entry) n ++ f.reads.flatten) =
      addAll n c [f] := by
    funext j
    unfold addAll addAll
    by_cases hj : j = n
    · simp [hj, hne]
    · by_cases h1 : j = 1
      · simp [h1, hne.symm, hEntry]
      · simp [hj, h1]
  apply wp_call (ialloc_spec hr (by decide) hFree)
  rintro _ h1 ⟨rfl, hr1, hFree1⟩
  rw [← hn] at hr1 hFree1 ⊢
  apply wp_call (iappend_spec hr1 ⟨Nat.one_pos, by omega⟩ _ fun hNot => hFull fun hRoom => hNot (hRoom.mono fun j => by
    rw [← hEntry, ← hAdd]
    by_cases hj : j = n
    · rw [hj, update_self, length_append]
      exact Nat.le_add_right ..
    · rw [update_of_ne hj]))
  rintro _ h2 ⟨hr2, hFree2⟩
  rw [← hEntry] at hr2
  have hAll := appends_spec (E := E) n f.reads hr2 ⟨by omega, by omega⟩ (by rwa [hAdd])
  rw [hAdd] at hAll
  apply wp_post hAll
  rintro _ h3 ⟨hr3, hFree3⟩
  exact ⟨⟨_, hr3⟩, by omega⟩

lemma addFiles_spec : ∀ {files : List Input} {h : Host} {ty : Nat → UInt16} {c : Nat → Text}, Represents h ty c → h.Has 1 →
    h.freeinode + files.length ≤ ninodes → (¬ ((∀ f ∈ files, f.Named) ∧ Room (addAll h.freeinode c files)) → ∀ e, E e) →
    wp (Prog.eachM (addFile 1) files) E (fun _ h' => (∃ ty', Represents h' ty' (addAll h.freeinode c files)) ∧
      h'.freeinode = h.freeinode + files.length) h
  | [], h, ty, c, hr, _, _, _ => (wp_ret _).mpr ⟨⟨ty, hr⟩, rfl⟩
  | f :: files, h, ty, c, hr, hi, hInodes, hE => by
    rw [length_cons] at hInodes
    have hRest : addAll (h.freeinode + 1) (addAll h.freeinode c [f]) files = addAll h.freeinode c (f :: files) := rfl
    apply wp_call (addFile_spec hr hi (by omega) f fun hNot => hE fun ⟨hNamed, hRoom⟩ =>
      hNot ⟨hNamed f List.mem_cons_self, hRoom.mono fun j => hRest ▸ length_le_addAll ..⟩)
    rintro _ h1 ⟨⟨ty1, hr1⟩, hFree1⟩
    apply wp_post (addFiles_spec hr1 ⟨Nat.one_pos, by have := hi.2; omega⟩ (by omega) fun hNot => hE fun ⟨hNamed, hRoom⟩ =>
      hNot ⟨fun g hg => hNamed g (List.mem_cons_of_mem f hg), by rw [hFree1, hRest]; exact hRoom⟩)
    rintro _ h2 ⟨hr2, hFree2⟩
    rw [hFree1, hRest] at hr2
    refine ⟨hr2, ?_⟩
    rw [length_cons]
    omega

/-! ## The end of the program -/

/-- The size of the root as `fixRoot` leaves it. -/
def rounded (d : Dinode) : Dinode := { d with size := UInt32.ofNat ((d.size.toNat / bsize + 1) * bsize) }

/-- What follows the files in `main`. -/
def finish : HostM Unit := do
  fixRoot rootino
  let used ← Prog.read Host.freeblock
  balloc used

structure Finished (h h' : Host) : Prop where
  inodes : h'.freeinode = h.freeinode
  blocks : h'.freeblock = h.freeblock
  disk : h'.disk = ((h.state noTable).setDinode 1 (rounded ((h.state noTable).inode 1))).disk

lemma finish_spec (hr : Represents h ty c) (hi : h.Has 1) : wp finish E (fun _ h' => Finished h h') h := by
  have hLess := hr.lt hi
  obtain ⟨hBlock, -⟩ := iblock_lt hLess
  have hSmall : sb.bmapstart < fssize ∧ fssize < 2 ^ 22 ∧ fssize < bpb := by decide
  have hRoom := hr.room
  unfold finish fixRoot rinode winode rootino
  simp only [wp_bind, wp_pure]
  rw [wp_rsect (by omega) hr.len]
  refine ⟨fun _ => ?_, fun hOut => absurd hOut (by omega)⟩
  rw [wp_rsect (by omega) hr.len]
  refine ⟨fun _ => ?_, fun hOut => absurd hOut (by omega)⟩
  rw [wp_wsect (by omega), wp_read, load_inode (t := noTable) hLess]
  obtain ⟨h1, hh1⟩ : ∃ h1, h1 = h.setBlock (sb.iblock 1) ((rounded ((h.state noTable).inode 1)).store (h.disk (sb.iblock 1))
    (1 % ipb * 64)) := ⟨_, rfl⟩
  have hFree : h1.freeblock = h.freeblock := by rw [hh1]; rfl
  change wp (balloc (h.setBlock (sb.iblock 1) ((rounded ((h.state noTable).inode 1)).store _ _)).freeblock) E _ (h.setBlock (sb.iblock 1)
    ((rounded ((h.state noTable).inode 1)).store _ _))
  rw [← hh1]
  unfold balloc
  rw [if_pos (by omega), wp_wsect (by omega)]
  refine ⟨by rw [hh1]; rfl, hFree, ?_⟩
  rw [state_setDinode hLess, ← hh1]
  funext b
  change (if b = sb.bmapstart then _ else _) = if b = sb.bmapstart then _ else _
  rfl

def Host.mount (h : Host) : FsState where
  sb := loadSuper (h.disk 1)
  disk := h.disk
  outstanding := 0
  lh := []
  itable := noTable

namespace Finished

lemma sb_eq (hf : Finished h h') (hr : Represents h ty c) (hi : h.Has 1) : h'.mount.sb = sb := by
  have hLess := hr.lt hi
  obtain ⟨-, hOne⟩ := iblock_lt hLess
  have hBitmap : 1 ≠ sb.bmapstart := by decide
  have hSuper : h'.disk 1 = superBlock := by
    rw [hf.disk, state_setDinode hLess, state_disk hBitmap, setBlock_disk_of_ne _ hOne.ne, hr.super]
  change loadSuper (h'.disk 1) = sb
  rw [hSuper, loadSuper_superBlock]

lemma inode_eq (hf : Finished h h') (hr : Represents h ty c) (hi : h.Has 1) :
    h'.mount.inode = Function.update (h.state noTable).inode 1 (rounded ((h.state noTable).inode 1)) := by
  rw [← FsState.inode_setDinode (hr.lt hi)]
  unfold FsState.inode FsState.dinode
  rw [hf.sb_eq hr hi, show h'.mount.disk = _ from hf.disk]
  rfl

lemma live_iff (hf : Finished h h') (hr : Represents h ty c) (hi : h.Has 1) (j : Nat) :
    h'.mount.Live h'.mount.inode j ↔ (h.state noTable).Live (h.state noTable).inode j := by
  unfold FsState.Live
  rw [hf.sb_eq hr hi, hf.inode_eq hr hi]
  by_cases hj : j = 1
  · rw [hj, update_self]
    rfl
  · rw [update_of_ne hj]
    rfl

lemma disk_of_place (hf : Finished h h') (hr : Represents h ty c) (hi : h.Has 1) {p : Option (Nat × Nat)} {b : Nat}
    (hp : (h.state noTable).place (h.state noTable).inode none p = some b) : h'.disk b = (h.state noTable).disk b := by
  obtain ⟨hBlock, -⟩ := iblock_lt (hr.lt hi)
  have hLow : nmeta ≤ b := sb_nmeta.symm.trans_le (hr.consistent.owned.placed.used_of hp).1
  have hMeta : sb.bmapstart < nmeta := by decide
  rw [hf.disk]
  exact FsState.setBlock_disk_of_ne _ (by change b ≠ sb.iblock 1; omega)

lemma slot_eq (hf : Finished h h') (hr : Represents h ty c) (hi : h.Has 1) {j : Nat}
    (hj : (h.state noTable).Live (h.state noTable).inode j) (q : Nat) :
    slotAt h'.disk (h'.mount.inode j) q = slotAt (h.state noTable).disk ((h.state noTable).inode j) q := by
  have hAddrs : (h'.mount.inode j).addrs = ((h.state noTable).inode j).addrs := by
    rw [hf.inode_eq hr hi]
    by_cases h1 : j = 1
    · rw [h1, update_self]
      rfl
    · rw [update_of_ne h1]
  rw [slotAt_addrs hAddrs]
  apply slotAt_congr
  intro hne
  exact hf.disk_of_place hr hi (p := some (j, 12)) (FsState.place_some_iff.mpr ⟨hj, by decide, rfl, hne⟩)

lemma place_eq (hf : Finished h h') (hr : Represents h ty c) (hi : h.Has 1) :
    h'.mount.place h'.mount.inode none = (h.state noTable).place (h.state noTable).inode none := by
  funext p
  rcases p with _ | ⟨j, q⟩
  · rfl
  · dsimp only [FsState.place]
    by_cases hj : (h.state noTable).Live (h.state noTable).inode j
    · rw [show slotAt h'.mount.disk _ q = _ from hf.slot_eq hr hi hj q]
      simp only [hf.live_iff hr hi]
    · simp only [hf.live_iff hr hi, hj, false_and, if_false]

lemma bit_eq (hf : Finished h h') (hr : Represents h ty c) (hi : h.Has 1) {b : Nat} (hb : b < fssize) :
    h'.mount.bit b = decide (b < h'.freeblock) := by
  rw [FsState.bit, hf.sb_eq hr hi, show h'.mount.disk = _ from hf.disk, state_setDinode (hr.lt hi), hf.blocks]
  exact state_bit (h := h.setBlock _ _) hr.room hb

lemma root_eq (hf : Finished h h') (hr : Represents h ty c) (hi : h.Has 1) :
    h'.mount.files 1 = { fileOf (ty 1) (c 1) with size := (rounded ((h.state noTable).inode 1)).size.toNat } := by
  have hLive := hr.live hi
  have hNode : ((h.state noTable).inode 1).node h'.disk = fileOf (ty 1) (c 1) := by
    rw [← hr.node hi]
    exact FsState.node_congr (s := h.state noTable) (t := h'.mount) hLive fun q b hp => hf.disk_of_place hr hi hp
  have hFile : h'.mount.files 1 = (rounded ((h.state noTable).inode 1)).node h'.disk := by
    rw [show h'.mount.files 1 = _ from FsState.nodes_of_live ((hf.live_iff hr hi 1).mpr hLive), hf.inode_eq hr hi, update_self]
    rfl
  rw [hFile, ← hNode]
  unfold Dinode.node
  rw [show dataAt h'.disk (rounded ((h.state noTable).inode 1)) = dataAt h'.disk ((h.state noTable).inode 1) from dataAt_addrs rfl]
  rfl

end Finished

/-! ## Well-formed images -/

/-- How many entries of directory `n`, apart from its own ".", name inode `i`. -/
def Node.links (n : Node) (i : Nat) : Nat := (List.range (n.size / 16)).countP fun k => k ≠ 0 ∧ (n.dirent (16 * k)).inum.toNat = i

structure WellFormed (h : Host) : Prop where
  super : h.mount.sb = sb
  inodes : ∀ i, h.Has i → i < sb.ninodes
  blocks : ∀ p b, h.mount.place h.mount.inode none p = some b → sb.nmeta ≤ b ∧ b < sb.size
  once : ∀ p p' b, h.mount.place h.mount.inode none p = some b → h.mount.place h.mount.inode none p' = some b → p = p'
  bitmap : ∀ b < sb.size, h.mount.bit b = true ↔ b < h.freeblock
  full : h.mount.Full h.mount.inode
  dot : (h.mount.files 1).dirent 0 = ⟨1, 46 :: List.replicate 13 0⟩
  dotdot : (h.mount.files 1).dirent 16 = ⟨1, 46 :: 46 :: List.replicate 12 0⟩
  links : ∀ i, h.Has i → (h.mount.files i).nlink.toInt = Node.links (h.mount.files 1) i

lemma length_flatMap_toBytes (es : List Dirent) : (es.flatMap Dirent.toBytes).length = 16 * es.length := by
  induction es with
  | nil => rfl
  | cons de es ih =>
    grind [length_append, Dirent.length_toBytes, length_cons]

lemma addAll_root : ∀ (files : List Input) {n : Nat} (c : Nat → Text), 1 < n →
    addAll n c files 1 = c 1 ++ (entriesFrom n files).flatMap Dirent.toBytes
  | [], _, c, _ => (List.append_nil _).symm
  | f :: files, n, c, hn => by
    unfold addAll entriesFrom
    rw [addAll_root files _ (by omega), if_neg (by omega), if_pos rfl, List.flatMap_cons, append_assoc]

lemma length_entriesFrom : ∀ (files : List Input) (n : Nat), (entriesFrom n files).length = files.length
  | [], _ => rfl
  | _ :: files, n => congrArg (· + 1) (length_entriesFrom files (n + 1))

lemma inums_entriesFrom : ∀ (files : List Input) {n : Nat}, n + files.length ≤ 2 ^ 16 →
    (entriesFrom n files).map (fun de => de.inum.toNat) = List.range' n files.length
  | [], _, _ => rfl
  | f :: files, n, hn => by
    rw [length_cons] at hn ⊢
    unfold entriesFrom
    rw [map_cons, inums_entriesFrom files (by omega), List.range'_succ, UInt16.toNat_ofNat_of_lt' (show n < UInt16.size by
      change n < 65536
      omega)]

lemma dirent_flatMap (type : UInt16) : ∀ (es : List Dirent) (k : Nat), (fileOf type (es.flatMap Dirent.toBytes)).dirent (16 * k) =
    es[k]?.elim ⟨0, List.replicate 14 0⟩ fun de => ⟨de.inum, (de.name ++ List.replicate dirsiz 0).take dirsiz⟩
  | [], k => by
    simp only [Node.dirent, fileOf, List.flatMap_nil, List.getD_nil]
    rfl
  | de :: es, 0 => by
    have hEntry : (List.range 16).map (fun j => (de.toBytes ++ es.flatMap Dirent.toBytes).getD (16 * 0 + j) 0) = de.toBytes := by
      apply List.ext_getElem
      · simp [Dirent.length_toBytes]
      · intro j hj hj'
        simp [List.getElem?_append_left hj', List.getElem?_eq_getElem hj']
    change Dirent.ofBytes _ = _
    rw [show (fileOf type ((de :: es).flatMap Dirent.toBytes)).data = fun x => (de.toBytes ++ es.flatMap Dirent.toBytes).getD x 0
      from rfl, hEntry, Dirent.ofBytes_toBytes]
    rfl
  | de :: es, k + 1 => by
    have hSkip : ∀ x, ((de :: es).flatMap Dirent.toBytes).getD (16 * (k + 1) + x) 0 = (es.flatMap Dirent.toBytes).getD (16 * k + x) 0 := by
      grind [Dirent.length_toBytes, List.getD_append_right]
    rw [List.getElem?_cons_succ, ← dirent_flatMap type es k]
    unfold Node.dirent fileOf
    simp only [hSkip]

lemma countP_inums {i : Nat} (hi : i ≠ 0) : ∀ (es : List Dirent) {m : Nat}, es.length ≤ m →
    (List.range m).countP (fun k => (es[k]?.elim 0 fun de => de.inum.toNat) = i) = (es.map fun de => de.inum.toNat).count i
  | [], m, _ => by
    simp [hi.symm]
  | de :: es, m, hm => by
    obtain ⟨m, rfl⟩ : ∃ k, m = k + 1 := ⟨m - 1, by rw [length_cons] at hm; omega⟩
    have hRest := countP_inums hi es (Nat.le_of_succ_le_succ hm)
    rw [List.range_succ_eq_map, List.countP_cons, List.countP_map, map_cons, List.count_cons, ← hRest]
    simp [Function.comp_def]

/-! ## The whole program -/

def dots : Nat → Text := Function.update (fun _ => []) 1 (Dirent.toBytes ⟨1, [46]⟩ ++ Dirent.toBytes ⟨1, [46, 46]⟩)

lemma root_addAll (files : List Input) : addAll 2 dots files 1 = (rootEntries files).flatMap Dirent.toBytes := by
  rw [addAll_root files dots (by decide), dots, update_self, rootEntries, List.flatMap_cons, List.flatMap_cons, append_assoc]

lemma length_root (files : List Input) : (addAll 2 dots files 1).length = 16 * (files.length + 2) := by
  rw [root_addAll, length_flatMap_toBytes, rootEntries, length_cons, length_cons, length_entriesFrom]

lemma main_spec (hLen : files.length + 2 ≤ ninodes)
    (hE : ¬ ((∀ f ∈ files, f.Named) ∧ Room (addAll 2 dots files)) → ∀ e, E e) :
    wp (main files) E (fun _ h' => ∃ h ty, Represents h ty (addAll 2 dots files) ∧ h.freeinode = files.length + 2 ∧ Finished h h')
      blank := by
  obtain ⟨one, hOne⟩ : ∃ l, l = Dirent.toBytes ⟨1, [46]⟩ := ⟨_, rfl⟩
  obtain ⟨two, hTwo⟩ : ∃ l, l = Dirent.toBytes ⟨1, [46, 46]⟩ := ⟨_, rfl⟩
  have hDots : Function.update (fun _ => []) 1 (one ++ two) = dots := by
    rw [hOne, hTwo]
    rfl
  have hFull : ∀ c : Nat → Text, (∀ i, (c i).length ≤ (dots i).length) → ¬ Room c → ∀ e, E e :=
    fun c hLe hNot => hE fun hc => hNot (hc.2.mono fun i => (hLe i).trans (length_le_addAll ..))
  unfold main
  apply wp_call format_spec
  rintro _ h0 ⟨hr0, hFree0⟩
  apply wp_call (ialloc_spec hr0 (by decide) (by rw [hFree0]; decide))
  rintro _ h1 ⟨rfl, hr1, hFree1⟩
  rw [hFree0] at hFree1 ⊢
  rw [if_neg (by decide), show UInt16.ofNat 1 = 1 from rfl, ← hOne, ← hTwo]
  apply wp_call (iappend_spec hr1 ⟨Nat.one_pos, by omega⟩ one (hFull _ fun i => ?_))
  · rintro _ h2 ⟨hr2, hFree2⟩
    rw [List.nil_append] at hr2
    apply wp_call (iappend_spec hr2 ⟨Nat.one_pos, by omega⟩ two (hFull _ fun i => ?_))
    · rintro _ h3 ⟨hr3, hFree3⟩
      rw [update_idem, update_self, hDots] at hr3
      have hNext : h3.freeinode = 2 := by omega
      have hOnes : h3.Has 1 := ⟨Nat.one_pos, by omega⟩
      apply wp_call (addFiles_spec hr3 hOnes (by omega) (by rwa [hNext]))
      rintro _ h4 ⟨⟨ty, hr4⟩, hFree4⟩
      rw [hNext] at hr4 hFree4
      apply wp_post (finish_spec hr4 ⟨Nat.one_pos, by omega⟩)
      exact fun _ h' hf => ⟨h4, ty, hr4, by omega, hf⟩
    · rw [update_idem, update_self, hDots]
  · rw [← hDots]
    by_cases hi : i = 1
    · subst hi
      simp
    · simp [hi]

/-! ## The inode counter -/

def SameInodes (h h' : Host) : Prop := h'.freeinode = h.freeinode

instance : Std.Refl SameInodes := ⟨fun _ => rfl⟩

instance : IsTrans Host SameInodes := ⟨fun _ _ _ h1 h2 => h2.trans h1⟩

lemma same_wsect (sec : Nat) (buf : Block) : Moves SameInodes (wsect sec buf) := .update fun _ => rfl

lemma same_rsect (sec : Nat) : Moves SameInodes (rsect sec) := .bind (.read _) fun _ => .ite (.pure _) (.stop _)

lemma same_winode (inum : Nat) (ip : Dinode) : Moves SameInodes (winode inum ip) :=
  .bind (same_rsect _) fun _ => same_wsect _ _

lemma same_rinode (inum : Nat) : Moves SameInodes (rinode inum) := .bind (same_rsect _) fun _ => .pure _

lemma same_nextBlock : Moves SameInodes nextBlock := .bind (.read _) fun _ => .bind (.update fun _ => rfl) fun _ => .pure _

lemma same_appendBlock (din : Dinode) (fbn : Nat) : Moves SameInodes (appendBlock din fbn) := by
  unfold appendBlock
  refine .ite (.ite (.bind same_nextBlock fun _ => .pure _) (.pure _)) ?_
  refine .ite (.bind same_nextBlock fun _ => .bind (.pure _) fun din => ?_) (.bind (.pure _) fun din => ?_)
  all_goals
    refine .bind (same_rsect _) fun _ => .ite (.bind same_nextBlock fun _ => ?_) (.pure _)
    exact .bind (same_wsect _ _) fun _ => .pure _

lemma same_appendLoop : ∀ (fuel : Nat) (din : Dinode) (off : Nat) (p : Text), Moves SameInodes (appendLoop fuel din off p)
  | 0, _, _, _ => .pure _
  | fuel + 1, din, off, p => by
    unfold appendLoop
    refine .ite (.ite (.bind (same_appendBlock _ _) fun _ => ?_) (.stop _)) (.pure _)
    exact .bind (same_rsect _) fun _ => .bind (same_wsect _ _) fun _ => same_appendLoop fuel _ _ _

lemma same_iappend (inum : Nat) (p : Text) : Moves SameInodes (iappend inum p) :=
  .bind (same_rinode _) fun _ => .bind (same_appendLoop _ _ _ _) fun _ => same_winode _ _

lemma same_format : Moves SameInodes format :=
  .bind (.update fun _ => rfl) fun _ => .bind (.eachM fun _ => same_wsect _ _) fun _ => same_wsect _ _

lemma same_finish : Moves SameInodes finish :=
  .bind (.bind (same_rinode _) fun _ => same_winode _ _) fun _ => .bind (.read _) fun _ => .ite (same_wsect _ _) (.stop _)

lemma ialloc_counts (type : UInt16) (h : Host) :
    wp (ialloc type) (fun _ => True) (fun i h' => i = h.freeinode ∧ h'.freeinode = h.freeinode + 1) h := by
  unfold ialloc
  rw [wp_bind, wp_read, wp_bind, wp_update]
  apply wp_call (same_winode _ _ _)
  intro _ h' hSame
  exact wp_val ⟨rfl, hSame⟩

lemma addFile_counts (root : Nat) (f : Input) (h : Host) :
    wp (addFile root f) (fun _ => True) (fun _ h' => h'.freeinode = h.freeinode + 1) h := by
  unfold addFile
  rw [wp_ite]
  refine ⟨fun _ => (wp_stop _).mpr trivial, fun _ => ?_⟩
  rw [wp_ite]
  refine ⟨fun _ => (wp_stop _).mpr trivial, fun _ => ?_⟩
  apply wp_call (ialloc_counts tFile h)
  rintro i h1 ⟨-, hFree⟩
  have hRest : Moves SameInodes (do
      iappend root (Dirent.toBytes ⟨UInt16.ofNat i, f.shortname⟩)
      Prog.eachM (iappend i) f.reads) := .bind (same_iappend _ _) fun _ => .eachM fun _ => same_iappend _ _
  apply wp_post (hRest h1)
  exact fun _ h2 hSame => hSame.trans hFree

lemma main_counts (files : List Input) : wp (main files) (fun _ => True) (fun _ h => h.freeinode = files.length + 2) blank := by
  unfold main
  apply wp_call (same_format blank)
  intro _ h0 hFree0
  apply wp_call (ialloc_counts tDir h0)
  rintro root h1 ⟨-, hFree1⟩
  rw [wp_ite]
  refine ⟨fun _ => (wp_stop _).mpr trivial, fun hRoot => ?_⟩
  apply wp_call (same_iappend _ _ _)
  intro _ h2 hFree2
  apply wp_call (same_iappend _ _ _)
  intro _ h3 hFree3
  apply wp_call (wp_eachM (I := fun l h => h.freeinode + l.length = files.length + 2) ?_ files h3 ?_)
  · intro _ h4 hFree4
    obtain rfl : root = rootino := not_not.mp hRoot
    apply wp_post (same_finish h4)
    exact fun _ h5 hFree5 => hFree5.trans hFree4
  · intro f l h hCount
    apply wp_post (addFile_counts root f h)
    intro _ h' hFree
    rw [length_cons] at hCount
    omega
  · have : blank.freeinode = 1 := rfl
    unfold SameInodes at *
    omega

/-! ## When the image is well formed -/

namespace Finished

lemma nlink_eq (hf : Finished h h') (hr : Represents h ty c) (hOne : h.Has 1) (hi : h.Has i) : (h'.mount.files i).nlink = 1 := by
  have hLink : ((h.state noTable).inode i).nlink = 1 := congrArg Node.nlink (hr.node hi)
  rw [show h'.mount.files i = _ from FsState.nodes_of_live ((hf.live_iff hr hOne i).mpr (hr.live hi)), hf.inode_eq hr hOne]
  change (Function.update (h.state noTable).inode 1 (rounded ((h.state noTable).inode 1)) i).nlink = 1
  by_cases h1 : i = 1
  · rw [h1, update_self]
    exact h1 ▸ hLink
  · rw [update_of_ne h1, hLink]

section

variable (hf : Finished h h') (hr : Represents h ty (addAll 2 dots files)) (hFree : h.freeinode = files.length + 2)
include hr hFree

omit hr in
lemma has_one : h.Has 1 := ⟨Nat.one_pos, by omega⟩

lemma size_rounded : (rounded ((h.state noTable).inode 1)).size.toNat = (16 * (files.length + 2) / 1024 + 1) * 1024 := by
  have hMost := hr.inodes
  unfold rounded bsize
  rw [hr.size (has_one hFree), length_root]
  apply UInt32.toNat_ofNat_of_lt'
  unfold ninodes at hMost
  change _ < 2 ^ 32
  omega

include hf

lemma dirent_root (k : Nat) : (h'.mount.files 1).dirent (16 * k) = (rootEntries files)[k]?.elim ⟨0, List.replicate 14 0⟩
    fun de => ⟨de.inum, (de.name ++ List.replicate dirsiz 0).take dirsiz⟩ := by
  rw [← dirent_flatMap (ty 1), ← root_addAll, hf.root_eq hr (has_one hFree)]
  rfl

lemma full_iff : h'.mount.Full h'.mount.inode ↔ (files.length + 2) % 64 ≠ 0 := by
  have hOne := has_one hFree
  have hMost : files.length + 2 ≤ 200 := hFree ▸ hr.inodes
  have hSize := size_rounded hr hFree
  have hRoot : h'.mount.inode 1 = rounded ((h.state noTable).inode 1) := by rw [hf.inode_eq hr hOne, update_self]
  have hSlot : ∀ bn < 268, slotAt h'.disk (h'.mount.inode 1) (fileSlot bn) ≠ 0 ↔ bn * 1024 < 16 * (files.length + 2) := by
    grind [hf.slot_eq, hr.live, hr.slotAt_state, hr.filled, fileSlot_lt, needed_fileSlot, length_root]
  constructor
  · intro hFull
    obtain ⟨-, hSlots⟩ := hFull 1 ((hf.live_iff hr hOne 1).mpr (hr.live hOne))
    have hLast := (hSlot _ (by omega)).mp (hSlots (16 * (files.length + 2) / 1024) (by rw [hRoot, hSize]; omega))
    omega
  · intro hMod i hLive
    have hLive' := (hf.live_iff hr hOne i).mp hLive
    by_cases hi : i = 1
    · subst hi
      rw [hRoot, hSize]
      refine ⟨by omega, fun bn hbn => ?_⟩
      rw [← hRoot]
      exact (hSlot bn (by omega)).mpr (by omega)
    · have hSame : h'.mount.inode i = (h.state noTable).inode i := by rw [hf.inode_eq hr hOne, update_of_ne hi]
      obtain ⟨hMax, hSlots⟩ := hr.consistent.full i hLive'
      rw [hSame]
      refine ⟨hMax, fun bn hbn => ?_⟩
      rw [← hSame, show slotAt h'.mount.disk _ _ = _ from hf.slot_eq hr hOne hLive' _]
      exact hSlots bn hbn

lemma links_root (hi : h.Has i) : Node.links (h'.mount.files 1) i = 1 := by
  have hOne := has_one hFree
  have hMost : files.length + 2 ≤ 200 := hFree ▸ hr.inodes
  have hSize : (h'.mount.files 1).size = (16 * (files.length + 2) / 1024 + 1) * 1024 := by
    rw [hf.root_eq hr hOne, ← size_rounded hr hFree]
  have hInum : ∀ k, ((h'.mount.files 1).dirent (16 * k)).inum.toNat = (rootEntries files)[k]?.elim 0 fun de => de.inum.toNat := by
    intro k
    rw [hf.dirent_root hr hFree]
    cases (rootEntries files)[k]? <;> rfl
  obtain ⟨m, hm⟩ : ∃ m, (h'.mount.files 1).size / 16 = m + 1 := ⟨(h'.mount.files 1).size / 16 - 1, by omega⟩
  -- "." is entry 0; the numbers of the others are 1, 2, and so on
  have hTail : ((rootEntries files).tail.map fun de => de.inum.toNat) = List.range' 1 (files.length + 1) := by
    rw [rootEntries, List.tail_cons, map_cons, inums_entriesFrom files (by omega), List.range'_succ]
    rfl
  have hCount := countP_inums hi.1.ne' (rootEntries files).tail (m := m) (by
    rw [rootEntries, List.tail_cons, length_cons, length_entriesFrom]
    omega)
  rw [hTail, List.count_eq_one_of_mem List.nodup_range' (List.mem_range'_1.mpr ⟨hi.1, by have := hi.2; omega⟩)] at hCount
  unfold Node.links
  simp only [hInum]
  rw [hm, List.range_succ_eq_map, List.countP_cons_of_neg (by simp), List.countP_map, ← hCount]
  apply List.countP_congr
  intro k _
  simp only [Function.comp_apply, decide_eq_true_iff]
  exact and_iff_right (Nat.succ_ne_zero k)

end

end Finished

/-- The image is well formed unless there are too many files or the entries of the root end with a
block. In the first case inodes lie outside of the inode blocks, in the second one the size of the
root takes in a block that it does not have. -/
theorem main_wellFormed_iff (hMain : main files blank = .ok ((), h)) :
    WellFormed h ↔ files.length ≤ 198 ∧ (files.length + 2) % 64 ≠ 0 := by
  have hCount := wp_ok (main_counts files) hMain
  have hImage := fun hMany : files.length + 2 ≤ ninodes => wp_ok (main_spec (E := fun _ => True) hMany fun _ _ => trivial) hMain
  have hNinodes : ninodes = 200 ∧ sb.ninodes = 200 := ⟨rfl, rfl⟩
  constructor
  · intro hWell
    have hMany := hWell.inodes (files.length + 1) ⟨Nat.succ_pos _, by omega⟩
    obtain ⟨h0, ty, hr, hFree, hf⟩ := hImage (by omega)
    exact ⟨by omega, (hf.full_iff hr hFree).mp hWell.full⟩
  · rintro ⟨hMany, hMod⟩
    obtain ⟨h0, ty, hr, hFree, hf⟩ := hImage (by omega)
    have hOne := Finished.has_one hFree
    have hHas : ∀ i, h.Has i ↔ h0.Has i := fun i => by unfold Host.Has; rw [hf.inodes]
    exact {
      super := hf.sb_eq hr hOne
      inodes := fun i hi => hr.lt ((hHas i).mp hi)
      blocks := by
        intro p b hp
        rw [hf.place_eq hr hOne] at hp
        have hUsed := hr.consistent.owned.placed.used_of hp
        exact ⟨hUsed.1, hUsed.2.1⟩
      once := by
        intro p p' b hp hp'
        rw [hf.place_eq hr hOne] at hp hp'
        exact hr.consistent.owned.placed.inj hp hp'
      bitmap := fun b hb => by rw [hf.bit_eq hr hOne hb, decide_eq_true_iff]
      full := (hf.full_iff hr hFree).mpr hMod
      dot := (hf.dirent_root hr hFree 0).trans rfl
      dotdot := (hf.dirent_root hr hFree 1).trans rfl
      links := by
        intro i hi
        rw [hf.nlink_eq hr hOne ((hHas i).mp hi), hf.links_root hr hFree ((hHas i).mp hi)]
        rfl }

lemma addAll_empty : ∀ {files : List Input} {n : Nat} {c : Nat → Text}, (∀ f ∈ files, f.reads = []) → i ≠ 1 →
    addAll n c files i = c i
  | [], _, _, _, _ => rfl
  | f :: files, n, c, hEmpty, hi => by
    unfold addAll
    rw [addAll_empty (fun g hg => hEmpty g (List.mem_cons_of_mem f hg)) hi, hEmpty f List.mem_cons_self, if_neg hi]
    by_cases hn : i = n
    · rw [if_pos hn, hn]
      exact List.append_nil _
    · rw [if_neg hn]

lemma room_empty (hMany : files.length ≤ 198) (hEmpty : ∀ f ∈ files, f.reads = []) : Room (addAll 2 dots files) := by
  have hOther : ∀ i, i ≠ 1 → addAll 2 dots files i = [] := by
    intro i hi
    rw [addAll_empty hEmpty hi, dots, update_of_ne hi]
  have hLength := length_root files
  constructor
  · intro i
    by_cases hi : i = 1
    · rw [hi, hLength]
      omega
    · simp [hOther i hi]
  · have hRoot : blocksFor (16 * (files.length + 2)) ≤ 4 := (blocksFor_mono (show _ ≤ 3200 by omega)).trans (by decide)
    have hRest : Represents.others (addAll 2 dots files) 1 = nmeta := by
      unfold Represents.others
      rw [Finset.sum_eq_zero fun j hj => by rw [hOther j (Finset.ne_of_mem_erase hj)]; rfl, Nat.add_zero]
    rw [Represents.sum_others (show 1 < ninodes by decide), hRest, hLength]
    have hSmall : nmeta = 47 ∧ fssize = 2000 := by decide
    omega

lemma main_empty (files : List Input) (hMany : files.length ≤ 198) (hNamed : ∀ f ∈ files, f.Named) (hEmpty : ∀ f ∈ files, f.reads = []) :
    ∃ h0 ty h, main files blank = .ok ((), h) ∧ Represents h0 ty (addAll 2 dots files) ∧ h0.freeinode = files.length + 2 ∧
      Finished h0 h := by
  have hFits : files.length + 2 ≤ ninodes := Nat.add_le_add_right hMany 2
  obtain ⟨_, h, hRun, h0, ty, hr, hFree, hf⟩ :=
    wp_total (main_spec (E := fun _ => False) hFits fun hNot => absurd ⟨hNamed, room_empty hMany hEmpty⟩ hNot)
  exact ⟨h0, ty, h, hRun, hr, hFree, hf⟩

/-- `n` files with two-letter names and no bytes. -/
def emptyFiles (n : Nat) : List Input := (List.range n).map fun k => ⟨[97, UInt8.ofNat (65 + k)], []⟩

theorem main_wellFormed_three : ∃ h, main (emptyFiles 3) blank = .ok ((), h) ∧ WellFormed h := by
  obtain ⟨-, -, h, hMain, -⟩ := main_empty (emptyFiles 3) (by decide) (by decide) (by decide)
  exact ⟨h, hMain, (main_wellFormed_iff hMain).mpr (by decide)⟩

/-- With 62 files the root has 64 entries, which fill one block, but the size of two. -/
theorem main_sixtyTwo : ((emptyFiles 62).map Input.shortname).Nodup ∧ ∃ h, main (emptyFiles 62) blank = .ok ((), h) ∧ ¬ WellFormed h := by
  obtain ⟨h0, ty, h, hMain, hr, hFree, hf⟩ := main_empty (emptyFiles 62) (by decide) (by decide) (by decide)
  refine ⟨by decide, h, hMain, fun hWell => ?_⟩
  exact (hf.full_iff hr hFree).mp hWell.full (by decide)

end Xv6K230.Mkfs
