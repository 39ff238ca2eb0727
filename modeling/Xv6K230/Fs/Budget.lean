import Xv6K230.Fs.Truncate

/-! # What an operation logs

The block operations logged against a list of blocks that the running operation may have in the log.
-/

namespace Xv6K230.Fs

open List (length_cons mem_cons_of_mem mem_cons_self)
open Prog

structure Budget (K : List Nat) (s : FsState) : Prop where
  nodup : s.lh.Nodup
  sub : ∀ b ∈ s.lh, b ∈ K
  inside : 1 ≤ s.outstanding

structure Spent (K : List Nat) (s t : FsState) : Prop where
  budget : Budget K t
  sb : t.sb = s.sb
  inum : ∀ ip, (t.itable ip).inum = (s.itable ip).inum

variable {s t u : FsState} {K L : List Nat} {ip : Ip} {i a b n off : Nat}

namespace Budget

lemma length_le (h : Budget K s) : s.lh.length ≤ K.length := (List.subperm_of_subset h.nodup h.sub).length_le

lemma mono (h : Budget K s) (hK : ∀ b ∈ K, b ∈ L) : Budget L s := ⟨h.nodup, fun b hb => hK b (h.sub b hb), h.inside⟩

lemma congr (h : Budget K s) (hLog : t.lh = s.lh) (hOps : t.outstanding = s.outstanding) : Budget K t :=
  ⟨by rw [hLog]; exact h.nodup, by rw [hLog]; exact h.sub, by rw [hOps]; exact h.inside⟩

lemma spent (h : Budget K s) : Spent K s s := ⟨h, rfl, fun _ => rfl⟩

end Budget

namespace Spent

lemma mono (h : Spent K s t) (hK : ∀ b ∈ K, b ∈ L) : Spent L s t := ⟨h.budget.mono hK, h.sb, h.inum⟩

lemma trans (h : Spent K s t) (h' : Spent L t u) : Spent L s u :=
  ⟨h'.budget, h'.sb.trans h.sb, fun ip => (h'.inum ip).trans (h.inum ip)⟩

end Spent

lemma logWrite_log (h : Budget K s) (hb : b ∈ K) (hCap : K.length < logblocks) :
    wp (logWrite b) LogFits (fun _ t => ∃ l, t = s.withLh l ∧ Budget K t) s := by
  have hLength := h.length_le
  have hInside := h.inside
  unfold logWrite
  rw [wp_bind, wp_read, if_neg (by simp only [id]; omega), if_neg (by simp only [id]; omega), wp_ite]
  constructor
  · exact fun _ => wp_val ⟨s.lh, rfl, h⟩
  · intro hNew
    refine (wp_update _).mpr ⟨s.lh ++ [b], rfl, ?_, ?_, hInside⟩
    · grind [h.nodup]
    · grind [h.sub]

lemma setBlock_log (h : Budget K s) (hb : b ∈ K) (hCap : K.length < logblocks) (v : Block) :
    wp (logWrite b) LogFits (fun _ t => Spent K s t ∧ t.itable = s.itable ∧ ∀ c, c ≠ b → t.disk c = s.disk c) (s.setBlock b v) := by
  apply wp_post (logWrite_log (h.congr (t := s.setBlock b v) rfl rfl) hb hCap)
  rintro _ t ⟨l, rfl, hBudget⟩
  exact ⟨⟨hBudget, rfl, fun _ => rfl⟩, rfl, fun c hc => FsState.setBlock_disk_of_ne v hc⟩

/-! ## Allocating and writing -/

lemma ballocIn_log (h : Budget K s) (hb : s.sb.bblock b ∈ K) (hCap : K.length + 1 < logblocks) :
    wp (ballocIn s.sb b) LogFits (fun r t =>
      match r with
      | none => t = s
      | some a => Spent (a :: K) s t) s := by
  unfold ballocIn bread
  rw [wp_bind, wp_read]
  cases firstFree (s.disk (s.sb.bblock b)) (min bpb (s.sb.size - b)) with
  | none => exact wp_val rfl
  | some bi =>
    rw [wp_bind, wp_update]
    apply wp_call (setBlock_log h hb (by omega) _)
    rintro _ t ⟨hSpent, -, -⟩
    unfold bzero
    rw [wp_bind, wp_bind, wp_update]
    have hMore : Budget ((b + bi) :: K) t := hSpent.budget.mono fun c hc => mem_cons_of_mem _ hc
    apply wp_post (setBlock_log hMore mem_cons_self hCap _)
    rintro _ u ⟨hSpent', -, -⟩
    exact wp_val (hSpent.trans hSpent')

/-- The block that `balloc` returns is the only one that it may log besides bitmap blocks. -/
lemma balloc_log (h : Budget K s) (hMap : ∀ c < s.sb.size, s.sb.bblock c ∈ K) (hCap : K.length + 1 < logblocks) :
    wp balloc LogFits (fun r t => Spent (r :: K) s t) s := by
  have hSame : Spent (0 :: K) s s := h.spent.mono fun c hc => mem_cons_of_mem _ hc
  unfold balloc
  rw [wp_bind, wp_read, wp_bind]
  apply wp_firstM (I := fun l t => t = s ∧ ∀ b ∈ l, b < s.sb.size)
  · rintro t ⟨rfl, -⟩
    exact wp_val hSame
  · rintro b l t ⟨rfl, hAll⟩
    apply wp_post (ballocIn_log h (hMap b (hAll b mem_cons_self)) hCap)
    intro r u hr
    cases r with
    | none => exact ⟨hr, fun c hc => hAll c (mem_cons_of_mem _ hc)⟩
    | some a => exact wp_val hr
  · grind [bpb, bsize]

lemma modDi_log (h : Budget K s) (f : Dinode → Dinode) : wp (modDi ip f) LogFits (fun _ t => Spent K s t) s := by
  rw [wp_modDi]
  refine ⟨h.congr rfl rfl, rfl, ?_⟩
  intro jp
  by_cases hj : jp = ip
  · rw [hj, FsState.setDi_itable_same]
  · rw [FsState.setDi_itable_of_ne hj]

lemma ballocAddr_log (h : Budget K s) (hMap : ∀ c < s.sb.size, s.sb.bblock c ∈ K) (hCap : K.length + 1 < logblocks) (k : Nat) :
    wp (do
      let addr ← balloc
      if addr = 0 then return 0
      else
        modDi ip fun d => d.setAddr k addr
        return addr) LogFits (fun r t => Spent (r :: K) s t) s := by
  apply wp_call (balloc_log h hMap hCap)
  intro a t ht
  rw [wp_ite]
  constructor
  · rintro rfl
    exact wp_val ht
  · intro _
    apply wp_call (modDi_log ht.budget _)
    intro _ u hu
    exact wp_val (ht.trans hu)

lemma indirectBlock_log (h : Budget K s) (hMap : ∀ c < s.sb.size, s.sb.bblock c ∈ K) (hCap : K.length + 1 < logblocks) :
    wp (indirectBlock ip) LogFits (fun r t => Spent (r :: K) s t) s := by
  unfold indirectBlock
  rw [wp_bind, wp_getInode, wp_ite]
  constructor
  · exact fun _ => wp_val (h.spent.mono fun c hc => mem_cons_of_mem _ hc)
  · exact fun _ => ballocAddr_log h hMap hCap _

lemma bmap_log (h : Budget K s) (hMap : ∀ c < s.sb.size, s.sb.bblock c ∈ K) (hCap : K.length + 2 < logblocks) (bn : Nat) :
    wp (bmap ip bn) LogFits (fun r t => ∃ ind, Spent (r :: ind :: K) s t) s := by
  have hMore : ∀ {r t}, Spent (r :: K) s t → ∃ ind, Spent (r :: ind :: K) s t := by
    intro r t ht
    refine ⟨0, ht.mono fun c hc => ?_⟩
    rcases List.mem_cons.mp hc with rfl | hc
    · exact mem_cons_self
    · exact mem_cons_of_mem _ (mem_cons_of_mem _ hc)
  unfold bmap
  rw [wp_bind, wp_getInode, wp_ite]
  constructor
  · intro _
    rw [wp_ite]
    constructor
    · exact fun _ => wp_val (hMore (h.spent.mono fun c hc => mem_cons_of_mem _ hc))
    · intro _
      exact wp_post (ballocAddr_log h hMap (by omega) _) fun _ _ ht => hMore ht
  · intro _
    rw [wp_ite]
    constructor
    · intro _
      apply wp_call (indirectBlock_log h hMap (by omega))
      intro ind t ht
      have hMap' : ∀ c < t.sb.size, t.sb.bblock c ∈ ind :: K := by
        rw [ht.sb]
        exact fun c hc => mem_cons_of_mem _ (hMap c hc)
      rw [wp_ite]
      constructor
      · rintro rfl
        exact wp_val (hMore ht)
      · intro _
        unfold bread
        rw [wp_bind, wp_read, wp_ite]
        constructor
        · intro _
          exact wp_val ⟨ind, ht.mono fun c hc => mem_cons_of_mem _ hc⟩
        · intro _
          apply wp_call (balloc_log ht.budget hMap' (by simp only [length_cons]; omega))
          intro a u hu
          by_cases ha : a ≠ 0
          · simp only [if_pos ha, wp_bind, wp_update]
            apply wp_post (setBlock_log hu.budget (mem_cons_of_mem _ mem_cons_self)
              (by simp only [length_cons]; omega) _)
            rintro _ v ⟨hv, -, -⟩
            exact wp_val ⟨ind, ht.trans (hu.trans hv)⟩
          · simp only [if_neg ha]
            exact wp_val ⟨ind, ht.trans hu⟩
    · exact fun _ => (wp_stop _).mpr ⟨by decide, by decide⟩

/-- The number of blocks that `n` bytes at `off` touch. -/
def spanned (off n : Nat) : Nat := if n = 0 then 0 else (off % 1024 + n + 1023) / 1024

lemma spanned_step (hn : 0 < n) {m : Nat} (hm : m = min n (1024 - off % 1024)) : spanned (off + m) (n - m) + 1 ≤ spanned off n := by
  unfold spanned
  rw [if_neg (by omega : n ≠ 0)]
  split
  · omega
  · have hMod : (off + m) % 1024 = 0 := by omega
    rw [hMod]
    omega

lemma writeiLoop_log (src : CopyIn) : ∀ (fuel tot off : Nat) {s : FsState} {K : List Nat}, Budget K s →
    (∀ c < s.sb.size, s.sb.bblock c ∈ K) → K.length + 2 * spanned off (n - tot) < logblocks →
    wp (writeiLoop ip src n fuel tot off) LogFits
      (fun _ t => ∃ l, l.length ≤ 2 * spanned off (n - tot) ∧ Spent (l ++ K) s t) s
  | 0, tot, off, s, K, h, _, _ => wp_val ⟨[], Nat.zero_le _, h.spent⟩
  | fuel + 1, tot, off, s, K, h, hMap, hCap => by
    have hNone : ∀ {c : Nat × Nat}, wp (pure c : FsM (Nat × Nat)) LogFits
        (fun _ t => ∃ l, l.length ≤ 2 * spanned off (n - tot) ∧ Spent (l ++ K) s t) s :=
      wp_val ⟨[], Nat.zero_le _, h.spent⟩
    unfold writeiLoop
    rw [wp_ite]
    constructor
    · intro hLt
      obtain ⟨m, hm⟩ : ∃ m, m = min (n - tot) (bsize - off % bsize) := ⟨_, rfl⟩
      have hStep : spanned (off + m) (n - tot - m) + 1 ≤ spanned off (n - tot) := spanned_step (by omega) hm
      have hRest : n - (tot + m) = n - tot - m := by omega
      apply wp_call (bmap_log h hMap (by omega) _)
      rintro a t ⟨ind, ht⟩
      rw [wp_ite]
      constructor
      · intro _
        exact wp_val ⟨[a, ind], by simp only [length_cons, List.length_nil]; omega, ht⟩
      · intro _
        rw [← hm]
        simp only [wp_bind, wp_update]
        by_cases hOk : (src tot m).2 = true
        · simp only [if_pos hOk, wp_bind]
          apply wp_post (setBlock_log ht.budget mem_cons_self (by simp only [length_cons]; omega) _)
          rintro _ u ⟨hu, -, -⟩
          have hMap' : ∀ c < u.sb.size, u.sb.bblock c ∈ a :: ind :: K := by
            grind [hu.sb, ht.sb]
          apply wp_post (writeiLoop_log src fuel (tot + m) (off + m) hu.budget hMap'
            (by simp only [length_cons]; rw [hRest]; omega))
          rintro _ v ⟨l, hl, hv⟩
          refine ⟨l ++ [a, ind], ?_, ?_⟩
          · grind
          · rw [List.append_assoc]
            exact ht.trans (hu.trans hv)
        · simp only [if_neg hOk]
          refine wp_val ⟨[a, ind], by simp only [length_cons, List.length_nil]; omega, ?_⟩
          exact ⟨ht.budget.congr rfl rfl, ht.sb, ht.inum⟩
    · exact fun _ => hNone

lemma iupdate_log (h : Budget K s) (hInum : s.sb.iblock (s.itable ip).inum ∈ K) (hCap : K.length < logblocks) :
    wp (iupdate ip) LogFits (fun _ t => Spent K s t) s := by
  unfold iupdate
  rw [wp_bind, wp_getInode, wp_bind, wp_read, wp_bind, wp_update]
  exact wp_post (setBlock_log h hInum hCap _) fun _ t ht => ht.1

lemma setAttr_log (h : Budget K s) (hInum : s.sb.iblock (s.itable ip).inum ∈ K) (hCap : K.length < logblocks)
    (f : Dinode → Dinode) : wp (modDi ip f) LogFits (fun _ t => wp (iupdate ip) LogFits (fun _ u => Spent K s u) t) s := by
  apply wp_post (modDi_log h f)
  intro _ t ht
  have hInum' : t.sb.iblock (t.itable ip).inum ∈ K := by
    rw [ht.sb, ht.inum]
    exact hInum
  exact wp_post (iupdate_log ht.budget hInum' hCap) fun _ u hu => ht.trans hu

lemma writei_log (h : Budget K s) (hMap : ∀ c < s.sb.size, s.sb.bblock c ∈ K) (hInum : s.sb.iblock (s.itable ip).inum ∈ K)
    (hCap : K.length + 2 * spanned off n < logblocks) (src : CopyIn) :
    wp (writei ip src off n) LogFits (fun _ t => ∃ l, l.length ≤ 2 * spanned off n ∧ Spent (l ++ K) s t) s := by
  unfold writei
  rw [wp_bind, wp_getInode, wp_ite]
  constructor
  · exact fun _ => wp_val ⟨[], Nat.zero_le _, h.spent⟩
  · intro _
    rw [wp_ite]
    constructor
    · exact fun _ => wp_val ⟨[], Nat.zero_le _, h.spent⟩
    · intro _
      apply wp_call (writeiLoop_log src n 0 off h hMap hCap)
      rintro ⟨tot, off'⟩ t ⟨l, hl, ht⟩
      rw [Nat.sub_zero] at hl
      have hInum' : t.sb.iblock (t.itable ip).inum ∈ l ++ K := by
        rw [ht.sb, ht.inum]
        exact List.mem_append_right _ hInum
      rw [wp_bind]
      apply wp_post (setAttr_log ht.budget hInum' (by rw [List.length_append]; omega) _)
      intro _ u hu
      rw [wp_bind]
      apply wp_post hu
      intro _ v hv
      exact wp_val ⟨l, hl, ht.trans hv⟩

/-! ## Freeing -/

lemma bfree_log (h : Budget K s) (hb : s.sb.bblock b ∈ K) (hCap : K.length < logblocks) :
    wp (bfree b) LogFits (fun _ t => Spent K s t ∧ t.itable = s.itable ∧ ∀ c, c ≠ s.sb.bblock b → t.disk c = s.disk c) s := by
  unfold bfree bread
  rw [wp_bind, wp_read, wp_bind, wp_read, wp_ite]
  constructor
  · exact fun _ => (wp_stop _).mpr ⟨by decide, by decide⟩
  · intro _
    rw [wp_bind, wp_update]
    exact setBlock_log h hb hCap _

/-- While `itrunc` frees the blocks of `ip`, the slots that are left are those of the start. -/
structure Shrinking (K : List Nat) (ip : Ip) (s t : FsState) : Prop where
  spent : Spent K s t
  addr : ∀ k < 13, (t.itable ip).di.addr k = 0 ∨ (t.itable ip).di.addr k = (s.itable ip).di.addr k
  disk : ∀ c, s.sb.nmeta ≤ c → t.disk c = s.disk c

lemma Shrinking.bfree (h : Shrinking K ip s t) (hMap : ∀ c < s.sb.size, s.sb.bblock c ∈ K) (hCap : K.length < logblocks)
    (hb : b < s.sb.size) : wp (Fs.bfree b) LogFits (fun _ u => Shrinking K ip s u) t := by
  have hBlock := s.sb.bblock_lt hb
  apply wp_post (bfree_log h.spent.budget (by rw [h.spent.sb]; exact hMap b hb) hCap)
  rintro _ u ⟨hSpent, hTable, hDisk⟩
  refine ⟨h.spent.trans hSpent, ?_, ?_⟩
  · rw [hTable]
    exact h.addr
  · intro c hc
    rw [hDisk c (by rw [h.spent.sb]; omega)]
    exact h.disk c hc

lemma Shrinking.clear (h : Shrinking K ip s t) {k : Nat} (hk : k < 13) :
    wp (modDi ip fun d => d.setAddr k 0) LogFits (fun _ u => Shrinking K ip s u) t := by
  have hSpent : wp (modDi ip fun d => d.setAddr k 0) LogFits (fun _ u => Spent K t u) t :=
    modDi_log h.spent.budget fun d => d.setAddr k 0
  rw [wp_modDi] at hSpent ⊢
  refine ⟨h.spent.trans hSpent, ?_, h.disk⟩
  intro j hj
  rw [FsState.setDi_itable_same, Dinode.addr_setAddr _ hk (by decide)]
  split
  · exact .inl rfl
  · exact h.addr j hj

lemma itrunc_log (h : Consistent s) (hip : Loaded s ip i) (hBudget : Budget K s)
    (hMap : ∀ c < s.sb.size, s.sb.bblock c ∈ K) (hInum : s.sb.iblock i ∈ K) (hCap : K.length < logblocks) :
    wp (itrunc ip) LogFits (fun _ t => Spent K s t) s := by
  have hLive := h.live hip
  have hDi := h.di hip
  have hUsed : ∀ q < nslots, slotAt s.disk (s.inode i) q ≠ 0 →
      s.sb.nmeta ≤ slotAt s.disk (s.inode i) q ∧ slotAt s.disk (s.inode i) q < s.sb.size := by
    intro q hq hne
    have hUsed := h.used (FsState.place_some_iff.mpr ⟨hLive, hq, rfl, hne⟩)
    exact ⟨hUsed.1, hUsed.2.1⟩
  have hAddr : ∀ {t k}, Shrinking K ip s t → k < 13 → (t.itable ip).di.addr k ≠ 0 →
      (t.itable ip).di.addr k = slotAt s.disk (s.inode i) k := by
    intro t k ht hk hne
    rw [(ht.addr k hk).resolve_left hne, hDi]
    exact (if_pos hk).symm
  have hSize : ∀ {t k}, Shrinking K ip s t → k < 13 → (t.itable ip).di.addr k ≠ 0 → (t.itable ip).di.addr k < s.sb.size := by
    grind [nslots]
  have hInum' : ∀ {t}, Spent K s t → t.sb.iblock (t.itable ip).inum ∈ K := by
    intro t ht
    rw [ht.sb, ht.inum, hip.inum]
    exact hInum
  have hEnd : ∀ {t}, Shrinking K ip s t → wp (modDi ip fun d => { d with size := 0 }) LogFits
      (fun _ u => wp (iupdate ip) LogFits (fun _ v => Spent K s v) u) t := by
    intro t ht
    apply wp_post (setAttr_log ht.spent.budget (hInum' ht.spent) hCap _)
    intro _ u hu
    exact wp_post hu fun _ v hv => ht.spent.trans hv
  unfold itrunc
  apply wp_call (R := fun _ t => Shrinking K ip s t)
  · apply wp_eachM_inv
    · intro k hk t ht
      have hk' : k < 13 := Nat.lt_succ_of_lt (List.mem_range.mp hk)
      unfold truncDirect
      rw [wp_bind, wp_getInode]
      by_cases hne : (t.itable ip).di.addr k ≠ 0
      · rw [if_pos hne]
        apply wp_call (ht.bfree hMap hCap (hSize ht hk' hne))
        exact fun _ u hu => hu.clear hk'
      · rw [if_neg hne]
        exact wp_val ht
    · exact ⟨hBudget.spent, fun _ _ => .inr rfl, fun _ _ => rfl⟩
  · intro _ t ht
    rw [wp_bind, wp_getInode]
    by_cases hne : (t.itable ip).di.addr ndirect ≠ 0
    · simp only [if_pos hne, wp_bind]
      have hInd : (t.itable ip).di.addr ndirect = slotAt s.disk (s.inode i) 12 := hAddr ht (by decide) hne
      rw [hInd] at hne ⊢
      have hIndUsed := hUsed 12 (by decide) hne
      apply wp_post (wp_eachM_inv (I := fun u => Shrinking K ip s u) _ ht)
      · intro _ u hu
        apply wp_post (hu.bfree hMap hCap hIndUsed.2)
        intro _ v hv
        apply wp_post (hv.clear (k := ndirect) (by decide))
        exact fun _ w hw => hEnd hw
      · intro j hj u hu
        have hj' : j < 256 := List.mem_range.mp hj
        unfold truncEntry bread
        rw [wp_bind, wp_read, hu.disk _ hIndUsed.1]
        have hSlot : (s.disk (slotAt s.disk (s.inode i) 12)).getLE (4 * j) 4 = slotAt s.disk (s.inode i) (13 + j) := by
          have h12 : slotAt s.disk (s.inode i) 12 = (s.inode i).addr 12 := if_pos (by decide)
          rw [h12] at hne ⊢
          exact (slotAt_indirect hne).symm
        by_cases hEntry : (s.disk (slotAt s.disk (s.inode i) 12)).getLE (4 * j) 4 ≠ 0
        · grind [hu.bfree, nslots]
        · rw [if_neg hEntry]
          exact wp_val hu
    · simp only [if_neg hne, wp_bind]
      exact hEnd ht

end Xv6K230.Fs
