import Xv6K230.Block.Content
import Xv6K230.Block.Sections

/-! # Coherence of the buffer cache

The invariant of all states that processes which share the cache can reach, and what it
says about `bread`: the cache with its evictions is a map from blocks to contents.
-/

namespace Xv6K230.Blk

open List (mem_insert_iff nodup_nil not_mem_nil)
open Fs (Block rootdev)

structure Protocol (log : Log) (ops : List Nat) (committer : Option Nat) (logPins : List Nat) : Prop where
  outstanding : log.outstanding = ops.length
  committing : log.committing = committer.isSome
  quiet : committer.isSome = true → ops = []
  nodup : log.lh.Nodup ∧ logPins.Nodup
  logged : ∀ n ∈ logPins, n ∈ log.lh
  pinned : committer = none → ∀ n ∈ log.lh, n ∈ logPins

def Blocks.page (s : Blocks) (b : Bi) : Page := (s.buf b).page

def inLog (v : Buf) (logPins : List Nat) : Bool := v.dev == rootdev && v.blockno ∈ logPins

lemma inLog_iff {v : Buf} {logPins : List Nat} :
    inLog v logPins = true ↔ v.dev = rootdev ∧ v.blockno ∈ logPins := by
  simp [inLog]

def Sys.pinCount (s : Sys) (b : Bi) : Nat := s.pins b + (inLog (s.blk.buf b) s.logPins).toNat

structure Coherent (s : Sys) : Prop where
  listed : Listed s.blk
  counted : Counted (fun b => (s.blk.buf b).refcnt) (fun b => (s.blk.buf b).lock) s.refs s.pinCount
  content : Content s.blk.page s.blk.disk s.stored s.refs s.logPins
  protocol : Protocol s.blk.log s.ops s.committer s.logPins

section

lemma binit_ring : ∃ L, L.Perm (List.finRange nbuf) ∧ binit.Ring L := by
  have hFold : ∀ (l : List Bi) (links : Links Bi) (L : List Bi), links.Ring L → (∀ b ∈ l, b ∉ L) → l.Nodup →
      (l.foldl Links.insertFront links).Ring (l.reverse ++ L) := by
    intro l
    induction l with
    | nil => exact fun _ _ hRing _ _ => hRing
    | cons b l ih =>
      intro links L hRing hNew hNodup
      obtain ⟨hb, hNodup⟩ := List.nodup_cons.mp hNodup
      rw [List.foldl_cons, List.reverse_cons, List.append_assoc]
      refine ih _ (b :: L) (hRing.insertFront (hNew b List.mem_cons_self)) ?_ hNodup
      intro c hc hcL
      rcases List.mem_cons.mp hcL with rfl | hcL
      · exact hb hc
      · exact hNew c (List.mem_cons_of_mem b hc) hcL
  refine ⟨(List.finRange nbuf).reverse, List.reverse_perm _, ?_⟩
  have hRing := hFold (List.finRange nbuf) ⟨fun _ => none, fun _ => none⟩ [] ⟨nodup_nil, rfl, rfl⟩
    (fun _ _ => not_mem_nil) (List.nodup_finRange nbuf)
  rw [List.append_nil] at hRing
  exact hRing

lemma Sys.Fresh.coherent {s : Sys} (h : s.Fresh) : Coherent s := by
  obtain ⟨hRefs, hPins, hLogPins, hOps, hCommitter⟩ := h.rest
  have hDev : ∀ b, (s.blk.page b).dev ≠ rootdev := by
    intro b hb
    have hZero := (h.buf b).2.1
    rw [Blocks.page, Buf.page, hZero] at hb
    cases hb
  constructor
  · obtain ⟨L, hPerm, hRing⟩ := binit_ring
    exact ⟨L, hPerm, h.links ▸ hRing⟩
  · rw [hRefs]
    constructor
    · intro b
      simp [Sys.pinCount, inLog, hPins, hLogPins, (h.buf b).2.2.2]
    · intro b
      rw [(h.buf b).2.2.1]
      rfl
    · exact nofun
  · rw [hRefs, hLogPins, h.stored]
    refine ⟨fun i _ hi => absurd hi (hDev i), fun i hi => absurd hi (hDev i), nofun, nofun, nofun,
      fun i hi => absurd hi (hDev i), nofun, nofun, fun _ => .inl rfl⟩
  · rw [h.log, hOps, hCommitter, hLogPins]
    exact ⟨rfl, rfl, fun _ => rfl, ⟨nodup_nil, nodup_nil⟩, nofun, fun _ => nofun⟩

end

/-! ## Steps -/

section

variable {s t : Sys} {r : Ref}

lemma Coherent.build {refcnt : Bi → Nat} {lock : Bi → Option Nat} {pins : Bi → Nat} {page : Bi → Page}
    (hListed : Listed t.blk) (hCounted : Counted refcnt lock t.refs pins)
    (hContent : Content page t.blk.disk t.stored t.refs t.logPins)
    (hProtocol : Protocol t.blk.log t.ops t.committer t.logPins)
    (hRefcnt : ∀ i, (t.blk.buf i).refcnt = refcnt i) (hLock : ∀ i, (t.blk.buf i).lock = lock i)
    (hPage : ∀ i, (t.blk.buf i).page = page i) (hPins : ∀ i, t.pinCount i = pins i) : Coherent t := by
  obtain rfl := funext hRefcnt
  obtain rfl := funext hLock
  obtain rfl := funext hPage
  obtain rfl := funext hPins
  exact ⟨hListed, hCounted, hContent, hProtocol⟩

lemma setBuf_apply (k : Blocks) (b : Bi) (v : Buf) (i : Bi) :
    (k.setBuf b v).buf i = if i = b then v else k.buf i := rfl

lemma setBuf_field {β : Type} (f : Buf → β) {k : Blocks} {b : Bi} {v : Buf} (h : f v = f (k.buf b)) (i : Bi) :
    f ((k.setBuf b v).buf i) = f (k.buf i) := by
  rw [setBuf_apply]
  split
  · rename_i hi
    rw [h, hi]
  · rfl

lemma pinCount_eq (hDev : ∀ i, (t.blk.buf i).dev = (s.blk.buf i).dev)
    (hNo : ∀ i, (t.blk.buf i).blockno = (s.blk.buf i).blockno) (i : Bi) :
    t.pinCount i = t.pins i + (inLog (s.blk.buf i) t.logPins).toNat := by
  simp only [Sys.pinCount, inLog, hDev, hNo]

lemma pinCount_congr (hPins : t.pins = s.pins) (hLog : t.logPins = s.logPins)
    (hDev : ∀ i, (t.blk.buf i).dev = (s.blk.buf i).dev) (hNo : ∀ i, (t.blk.buf i).blockno = (s.blk.buf i).blockno)
    (i : Bi) : t.pinCount i = s.pinCount i := by
  rw [pinCount_eq hDev hNo, hPins, hLog, Sys.pinCount]

lemma section_some {m : BM Unit} {f : Blocks → Sys} (h : s.section m f = some t) :
    ∃ blk, m s.blk = .ok ((), blk) ∧ t = f blk := by
  unfold Sys.section at h
  split at h
  · rename_i blk hm
    cases h
    exact ⟨blk, hm, rfl⟩
  · cases h

lemma bget_coherent {pid n : Nat} (hs : Coherent s) (hn : n < 2 ^ 22) (h : s.next (.bget pid n) = some t) :
    Coherent t := by
  simp only [Sys.next] at h
  split at h
  · rename_i b blk hGet
    cases h
    rcases bget_cases hs.listed hGet with ⟨hDev, hNo, rfl⟩ | ⟨hNew, hZero, rfl⟩
    · refine Coherent.build hs.listed
        (hs.counted.add (c := fun i => (s.blk.buf i).refcnt + if i = b then 1 else 0) fun _ => rfl)
        (hs.content.add hDev hNo) hs.protocol ?_ (setBuf_field Buf.lock rfl) (setBuf_field Buf.page rfl)
        (pinCount_congr rfl rfl (setBuf_field Buf.dev rfl) (setBuf_field Buf.blockno rfl))
      intro i
      dsimp only
      rw [setBuf_apply]
      by_cases hi : i = b
      · rw [if_pos hi, if_pos hi, hi]
      · rw [if_neg hi, if_neg hi, add_zero]
    · obtain ⟨hFree, hPins⟩ := hs.counted.free hZero
      rw [Sys.pinCount, Nat.add_eq_zero_iff] at hPins
      have hPin : inLog (s.blk.buf b) s.logPins = false := by simpa using hPins.2
      have hContent := hs.content.recycle
        (q := fun i => if i = b then ⟨false, rootdev, n, (s.blk.buf b).data⟩ else s.blk.page i) hFree
        (fun hIn => by rw [inLog_iff.mpr hIn] at hPin; cases hPin) hNew hn (by rw [if_pos rfl]; exact ⟨rfl, rfl, rfl⟩) (fun i hi => if_neg hi)
      refine Coherent.build hs.listed
        (hs.counted.add (c := fun i => (s.blk.buf i).refcnt + if i = b then 1 else 0) fun _ => rfl)
        (hContent.add (by rw [if_pos rfl]) (by rw [if_pos rfl])) hs.protocol ?_ (setBuf_field Buf.lock rfl) ?_ ?_
      · grind [setBuf_apply]
      · intro i
        dsimp only
        rw [setBuf_apply]
        by_cases hi : i = b
        · rw [if_pos hi, if_pos hi]
          rfl
        · rw [if_neg hi, if_neg hi]
          rfl
      · intro i
        by_cases hi : i = b
        · subst hi
          have hNot : inLog { s.blk.buf i with dev := rootdev, blockno := n, valid := false, refcnt := 1 } s.logPins = false := by
            rw [← Bool.not_eq_true, inLog_iff]
            rintro ⟨-, hIn⟩
            obtain ⟨c, hc, hcn, -⟩ := hs.content.pinned n hIn
            exact hNew c ⟨hc, hcn⟩
          rw [Sys.pinCount, Sys.pinCount, setBuf_same, hNot, hPin]
        · rw [Sys.pinCount, Sys.pinCount, setBuf_of_ne _ _ hi]
  · cases h

lemma acquire_coherent (hs : Coherent s) (h : s.next (.acquire r) = some t) : Coherent t := by
  simp only [Sys.next] at h
  split at h
  · rename_i hr
    obtain ⟨blk, hLock, rfl⟩ := section_some h
    obtain ⟨hFree, rfl⟩ := acquiresleep_cases hLock
    refine Coherent.build hs.listed (hs.counted.acquire hr.1 hr.2 hFree) ?_ hs.protocol
      (setBuf_field Buf.refcnt rfl) ?_ (setBuf_field Buf.page rfl)
      (pinCount_congr rfl rfl (setBuf_field Buf.dev rfl) (setBuf_field Buf.blockno rfl))
    · apply hs.content.move hr.1
      · exact nofun
      · exact nofun
      · intro hStage
        rw [hr.2] at hStage
        cases hStage
    · intro i
      dsimp only
      rw [setBuf_apply]
      split <;> rfl
  · cases h

lemma fill_coherent (hs : Coherent s) (h : s.next (.fill r) = some t) : Coherent t := by
  simp only [Sys.next] at h
  split at h
  · rename_i hr
    obtain ⟨blk, hFill, rfl⟩ := section_some h
    have hCounted := hs.counted.move hr.1 (u := .ready .clean) (by rw [hr.2]; rfl)
    have hNotModified : r.stage ≠ .ready .modified := by
      rw [hr.2]
      exact nofun
    rcases fill_cases hFill with ⟨hValid, rfl⟩ | ⟨hInvalid, rfl⟩
    · refine ⟨hs.listed, hCounted, ?_, hs.protocol⟩
      exact hs.content.move hr.1 (fun _ => hValid) nofun fun hStage => absurd hStage hNotModified
    · have hRoot := hs.content.root r hr.1
      have hIndex := ramdiskIndex_of_lt (hs.content.small r.buf hRoot)
      have hContent := hs.content.fill (q := fun i =>
          if i = r.buf then { s.blk.page i with valid := true, data := s.blk.disk (s.blk.page i).blockno }
          else s.blk.page i) hRoot hInvalid (if_pos rfl) (fun i hi => if_neg hi)
      have hMoved := hContent.move hr.1 (u := .ready .clean) (fun _ => by rw [if_pos rfl]) nofun
        (fun hStage => absurd hStage hNotModified)
      refine Coherent.build hs.listed hCounted hMoved hs.protocol (setBuf_field Buf.refcnt rfl)
        (setBuf_field Buf.lock rfl) ?_
        (pinCount_congr rfl rfl (setBuf_field Buf.dev rfl) (setBuf_field Buf.blockno rfl))
      intro i
      dsimp only
      rw [setBuf_apply]
      by_cases hi : i = r.buf
      · rw [if_pos hi, if_pos hi, hi]
        show Page.mk _ _ _ (s.blk.disk (ramdiskIndex (s.blk.page r.buf).blockno)) = _
        rw [hIndex]
        rfl
      · rw [if_neg hi, if_neg hi]
        rfl
  · cases h

lemma usable_holds {st : Stage} (h : st.usable = true) : st.holds = true := by
  obtain ⟨use, rfl⟩ := Stage.usable_iff.mp h
  rfl

lemma Coherent.counted_ready (hs : Coherent s) (hr : r ∈ s.refs) (hUsable : r.stage.usable = true) (use : Use) :
    Counted (fun b => (s.blk.buf b).refcnt) (fun b => (s.blk.buf b).lock) (s.move r (.ready use)) s.pinCount :=
  hs.counted.move hr (by rw [usable_holds hUsable]; rfl)

lemma store_coherent {d : Block} (hs : Coherent s) (h : s.next (.store r d) = some t) : Coherent t := by
  simp only [Sys.next] at h
  split at h
  · rename_i hr
    obtain ⟨blk, hMod, rfl⟩ := section_some h
    obtain rfl := modBuf_ok hMod
    have hContent := hs.content.store hr.1 hr.2 (fun x => hs.counted.alone hr.1 (usable_holds hr.2)) d
      (q := fun i => if i = r.buf then { s.blk.page i with data := d } else s.blk.page i) (if_pos rfl)
      (fun i hi => if_neg hi)
    refine Coherent.build hs.listed (hs.counted_ready hr.1 hr.2 .modified) hContent hs.protocol
      (setBuf_field Buf.refcnt rfl) (setBuf_field Buf.lock rfl) ?_
      (pinCount_congr rfl rfl (setBuf_field Buf.dev rfl) (setBuf_field Buf.blockno rfl))
    intro i
    dsimp only
    rw [setBuf_apply]
    by_cases hi : i = r.buf
    · rw [if_pos hi, if_pos hi, hi]
      rfl
    · rw [if_neg hi, if_neg hi]
      rfl
  · cases h

lemma bwrite_coherent (hs : Coherent s) (h : s.next (.bwrite r) = some t) : Coherent t := by
  simp only [Sys.next] at h
  split at h
  · rename_i hr
    obtain ⟨blk, hWrite, rfl⟩ := section_some h
    obtain rfl := bwrite_cases hWrite
    have hSmall : (s.blk.buf r.buf).blockno < 2 ^ 22 := hs.content.small r.buf (hs.content.root r hr.1)
    rw [ramdiskIndex_of_lt hSmall]
    exact ⟨hs.listed, hs.counted_ready hr.1 hr.2 .written, hs.content.write hr.1 hr.2, hs.protocol⟩
  · cases h

lemma logWrite_coherent (hs : Coherent s) (h : s.next (.logWrite r) = some t) : Coherent t := by
  simp only [Sys.next] at h
  split at h
  · rename_i hr
    obtain ⟨blk, hWrite, rfl⟩ := section_some h
    obtain ⟨hOpen, hCases⟩ := logWriteBuf_cases hWrite
    have hRoot := hs.content.root r hr.1
    have hContent := hs.content.log hr.1 hr.2
    have hCounted := hs.counted_ready hr.1 hr.2 .logged
    have hIdle : s.committer = none := by
      cases hCommitter : s.committer with
      | none => rfl
      | some pid =>
        have hQuiet := hs.protocol.quiet (by rw [hCommitter]; rfl)
        have hOut := hs.protocol.outstanding
        rw [hQuiet] at hOut
        rw [hOut] at hOpen
        exact absurd hOpen (by decide)
    rcases hCases with ⟨hIn, rfl⟩ | ⟨hNew, rfl⟩
    · -- absorbed: the block is in the log, so its buffer is pinned already
      have hSame : s.logPins.insert (s.blk.buf r.buf).blockno = s.logPins :=
        List.insert_of_mem (hs.protocol.pinned hIdle _ hIn)
      have hSame' : s.logPins.insert (s.blk.page r.buf).blockno = s.logPins := hSame
      rw [hSame'] at hContent
      rw [hSame]
      exact ⟨hs.listed, hCounted, hContent, hs.protocol⟩
    · have hNotPinned : (s.blk.buf r.buf).blockno ∉ s.logPins := fun hIn => hNew (hs.protocol.logged _ hIn)
      have hCons : s.logPins.insert (s.blk.buf r.buf).blockno = (s.blk.buf r.buf).blockno :: s.logPins :=
        List.insert_of_not_mem hNotPinned
      have hProtocol : Protocol { s.blk.log with lh := s.blk.log.lh ++ [(s.blk.buf r.buf).blockno] } s.ops s.committer
          (s.logPins.insert (s.blk.buf r.buf).blockno) := by
        obtain ⟨hLh, hPins⟩ := hs.protocol.nodup
        refine ⟨hs.protocol.outstanding, hs.protocol.committing, hs.protocol.quiet, ⟨?_, ?_⟩, ?_, ?_⟩
        · grind
        · rw [hCons]
          exact List.nodup_cons.mpr ⟨hNotPinned, hPins⟩
        · intro n hn
          rcases mem_insert_iff.mp hn with rfl | hn
          · exact List.mem_append_right _ (List.mem_singleton.mpr rfl)
          · exact List.mem_append_left _ (hs.protocol.logged n hn)
        · intro hNone n hn
          rcases List.mem_append.mp hn with hn | hn
          · exact mem_insert_iff.mpr (.inr (hs.protocol.pinned hNone n hn))
          · exact mem_insert_iff.mpr (.inl (List.mem_singleton.mp hn))
      have hPinCount : ∀ i, s.pins i + (inLog (s.blk.buf i) (s.logPins.insert (s.blk.buf r.buf).blockno)).toNat =
          s.pinCount i + if i = r.buf then 1 else 0 := by
        intro i
        by_cases hi : i = r.buf
        · subst hi
          have hNow : inLog (s.blk.buf r.buf) (s.logPins.insert (s.blk.buf r.buf).blockno) = true :=
            inLog_iff.mpr ⟨hRoot, mem_insert_iff.mpr (.inl rfl)⟩
          have hBefore : inLog (s.blk.buf r.buf) s.logPins = false := by
            rw [← Bool.not_eq_true, inLog_iff]
            exact fun hIn => hNotPinned hIn.2
          rw [hNow, if_pos rfl, Sys.pinCount, hBefore]
          rfl
        · have hSame : inLog (s.blk.buf i) (s.logPins.insert (s.blk.buf r.buf).blockno) = inLog (s.blk.buf i) s.logPins := by
            rw [Bool.eq_iff_iff, inLog_iff, inLog_iff, mem_insert_iff]
            constructor
            · rintro ⟨hDev, hNo | hIn⟩
              · exact absurd (hs.content.unique i r.buf hDev hRoot hNo) hi
              · exact ⟨hDev, hIn⟩
            · exact fun hIn => ⟨hIn.1, .inr hIn.2⟩
          rw [hSame, if_neg hi, add_zero]
          rfl
      have hRepin := hCounted.repin (c := fun i => (s.blk.buf i).refcnt + if i = r.buf then 1 else 0)
        (q := fun i => s.pinCount i + if i = r.buf then 1 else 0) (fun i => by omega)
      refine Coherent.build hs.listed hRepin hContent hProtocol ?_ (setBuf_field Buf.lock rfl)
        (setBuf_field Buf.page rfl) ?_
      · intro i
        dsimp only
        rw [setBuf_apply]
        by_cases hi : i = r.buf
        · rw [if_pos hi, if_pos hi, hi]
        · rw [if_neg hi, if_neg hi, add_zero]
      · intro i
        refine (pinCount_eq (s := s) ?_ ?_ i).trans (hPinCount i)
        · exact setBuf_field Buf.dev rfl
        · exact setBuf_field Buf.blockno rfl
  · cases h

lemma bpin_coherent (hs : Coherent s) (h : s.next (.bpin r) = some t) : Coherent t := by
  simp only [Sys.next] at h
  split at h
  · obtain ⟨blk, hPin, rfl⟩ := section_some h
    obtain rfl := modBuf_ok hPin
    have hRepin := hs.counted.repin (c := fun i => (s.blk.buf i).refcnt + if i = r.buf then 1 else 0)
      (q := fun i => s.pinCount i + if i = r.buf then 1 else 0) (fun i => by omega)
    refine Coherent.build hs.listed hRepin hs.content hs.protocol ?_ (setBuf_field Buf.lock rfl)
      (setBuf_field Buf.page rfl) ?_
    · intro i
      dsimp only
      rw [setBuf_apply]
      by_cases hi : i = r.buf
      · rw [if_pos hi, if_pos hi, hi]
      · rw [if_neg hi, if_neg hi, add_zero]
    · intro i
      refine (pinCount_eq (s := s) ?_ ?_ i).trans ?_
      · exact setBuf_field Buf.dev rfl
      · exact setBuf_field Buf.blockno rfl
      · rw [Sys.pinCount]
        dsimp only
        split <;> omega
  · cases h

lemma bunpin_coherent {b : Bi} (hs : Coherent s) (h : s.next (.bunpin b) = some t) : Coherent t := by
  simp only [Sys.next] at h
  split at h
  · rename_i hPos
    obtain ⟨blk, hPin, rfl⟩ := section_some h
    obtain rfl := modBuf_ok hPin
    have hLe : s.pins b ≤ s.pinCount b := Nat.le_add_right _ _
    have hCount := hs.counted.refcnt b
    have hRepin := hs.counted.repin (c := fun i => (s.blk.buf i).refcnt - if i = b then 1 else 0)
      (q := fun i => s.pinCount i - if i = b then 1 else 0) (fun i => by
        by_cases hi : i = b
        · subst hi
          rw [if_pos rfl]
          omega
        · rw [if_neg hi]
          omega)
    refine Coherent.build hs.listed hRepin hs.content hs.protocol ?_ (setBuf_field Buf.lock rfl)
      (setBuf_field Buf.page rfl) ?_
    · intro i
      dsimp only
      rw [setBuf_apply]
      by_cases hi : i = b
      · rw [if_pos hi, if_pos hi, hi]
      · rw [if_neg hi, if_neg hi, Nat.sub_zero]
    · intro i
      refine (pinCount_eq (s := s) ?_ ?_ i).trans ?_
      · exact setBuf_field Buf.dev rfl
      · exact setBuf_field Buf.blockno rfl
      · grind [Sys.pinCount]
  · cases h

lemma unpin_coherent (hs : Coherent s) (h : s.next (.unpin r) = some t) : Coherent t := by
  simp only [Sys.next] at h
  split at h
  · rename_i hr
    obtain ⟨hMem, hStage, hIn, hCommitter⟩ := hr
    obtain ⟨blk, hPin, rfl⟩ := section_some h
    obtain rfl := modBuf_ok hPin
    have hRoot : (s.blk.buf r.buf).dev = rootdev := hs.content.root r hMem
    obtain ⟨hLh, hNodup⟩ := hs.protocol.nodup
    have hBefore : inLog (s.blk.buf r.buf) s.logPins = true := inLog_iff.mpr ⟨hRoot, hIn⟩
    have hPos : 1 ≤ s.pinCount r.buf := by
      rw [Sys.pinCount, hBefore]
      exact Nat.le_add_left 1 _
    have hCount := hs.counted.refcnt r.buf
    have hPinCount : ∀ i, s.pins i + (inLog (s.blk.buf i) (s.logPins.erase (s.blk.buf r.buf).blockno)).toNat =
        s.pinCount i - if i = r.buf then 1 else 0 := by
      intro i
      by_cases hi : i = r.buf
      · subst hi
        have hNow : inLog (s.blk.buf r.buf) (s.logPins.erase (s.blk.buf r.buf).blockno) = false := by
          rw [← Bool.not_eq_true, inLog_iff]
          exact fun hStill => (hNodup.not_mem_erase) hStill.2
        rw [hNow, if_pos rfl, Sys.pinCount, hBefore]
        rfl
      · have hSame : inLog (s.blk.buf i) (s.logPins.erase (s.blk.buf r.buf).blockno) = inLog (s.blk.buf i) s.logPins := by
          rw [Bool.eq_iff_iff, inLog_iff, inLog_iff]
          constructor
          · exact fun hStill => ⟨hStill.1, List.mem_of_mem_erase hStill.2⟩
          · rintro ⟨hDev, hStill⟩
            refine ⟨hDev, (List.mem_erase_of_ne fun hNo => hi ?_).mpr hStill⟩
            exact hs.content.unique i r.buf hDev hRoot hNo
        rw [hSame, if_neg hi]
        rfl
    have hRepin := hs.counted.repin (c := fun i => (s.blk.buf i).refcnt - if i = r.buf then 1 else 0)
      (q := fun i => s.pinCount i - if i = r.buf then 1 else 0) (fun i => by
        by_cases hi : i = r.buf
        · subst hi
          rw [if_pos rfl]
          omega
        · rw [if_neg hi]
          omega)
    have hProtocol : Protocol s.blk.log s.ops s.committer (s.logPins.erase (s.blk.buf r.buf).blockno) := by
      refine ⟨hs.protocol.outstanding, hs.protocol.committing, hs.protocol.quiet, ⟨hLh, hNodup.erase _⟩,
        fun n hn => hs.protocol.logged n (List.mem_of_mem_erase hn), fun hNone => ?_⟩
      rw [hCommitter] at hNone
      cases hNone
    refine Coherent.build hs.listed hRepin (hs.content.unpin (hs.content.written r hMem hStage)) hProtocol ?_
      (setBuf_field Buf.lock rfl) (setBuf_field Buf.page rfl) ?_
    · intro i
      dsimp only
      rw [setBuf_apply]
      by_cases hi : i = r.buf
      · rw [if_pos hi, if_pos hi, hi]
      · rw [if_neg hi, if_neg hi, Nat.sub_zero]
    · intro i
      refine (pinCount_eq (s := s) ?_ ?_ i).trans (hPinCount i)
      · exact setBuf_field Buf.dev rfl
      · exact setBuf_field Buf.blockno rfl
  · cases h

lemma release_coherent (hs : Coherent s) (h : s.next (.release r) = some t) : Coherent t := by
  simp only [Sys.next] at h
  split at h
  · rename_i hr
    obtain ⟨hMem, hUsable, hNotModified⟩ := hr
    obtain ⟨blk, hRelease, rfl⟩ := section_some h
    obtain rfl := brelseLock_cases hRelease
    have hContent := hs.content.move hMem (u := .leaving) nofun nofun fun hStage => absurd hStage hNotModified
    refine Coherent.build hs.listed (hs.counted.release hMem (usable_holds hUsable)) hContent hs.protocol
      (setBuf_field Buf.refcnt rfl) ?_ (setBuf_field Buf.page rfl)
      (pinCount_congr rfl rfl (setBuf_field Buf.dev rfl) (setBuf_field Buf.blockno rfl))
    intro i
    dsimp only
    rw [setBuf_apply]
    split <;> rfl
  · cases h

lemma put_coherent (hs : Coherent s) (h : s.next (.put r) = some t) : Coherent t := by
  simp only [Sys.next] at h
  split at h
  · rename_i hr
    obtain ⟨blk, hPut, rfl⟩ := section_some h
    have hListed := hs.listed.bput hPut
    obtain ⟨links, -, rfl⟩ := bput_cases hPut
    have hDrop := hs.counted.drop hr.1 hr.2
      (c := fun i => (s.blk.buf i).refcnt - if i = r.buf then 1 else 0) (fun _ => rfl)
    refine Coherent.build hListed hDrop (hs.content.drop hr.2) hs.protocol ?_ (setBuf_field Buf.lock rfl)
      (setBuf_field Buf.page rfl) (pinCount_congr rfl rfl (setBuf_field Buf.dev rfl) (setBuf_field Buf.blockno rfl))
    intro i
    dsimp only
    rw [setBuf_apply]
    by_cases hi : i = r.buf
    · rw [if_pos hi, if_pos hi, hi]
    · rw [if_neg hi, if_neg hi, Nat.sub_zero]
  · cases h

lemma Coherent.withLog (hs : Coherent s) {log : Log} {ops : List Nat} {committer : Option Nat}
    (hProtocol : Protocol log ops committer s.logPins) :
    Coherent { s with blk := { s.blk with log := log }, ops := ops, committer := committer } :=
  ⟨hs.listed, hs.counted, hs.content, hProtocol⟩

lemma beginOp_coherent {pid : Nat} (hs : Coherent s) (h : s.next (.beginOp pid) = some t) : Coherent t := by
  simp only [Sys.next] at h
  split at h
  · rename_i blk hBegin
    cases h
    obtain ⟨hLog, hBlk⟩ := onLog_ok hBegin
    obtain ⟨hFalse, -⟩ | ⟨-, hIdle, -, hNew⟩ := beginOp_cases hLog
    · cases hFalse
    · rw [hBlk, hNew]
      apply hs.withLog
      have hNone : s.committer = none := by
        rw [hs.protocol.committing] at hIdle
        simpa using hIdle
      refine ⟨?_, hs.protocol.committing, fun hSome => ?_, hs.protocol.nodup, hs.protocol.logged, hs.protocol.pinned⟩
      · simp only [hs.protocol.outstanding, List.length_cons]
        omega
      · rw [hNone] at hSome
        cases hSome
  · rename_i blk hBegin
    cases h
    obtain ⟨hLog, hBlk⟩ := onLog_ok hBegin
    obtain ⟨-, hSame⟩ | ⟨hTrue, -⟩ := beginOp_cases hLog
    · rw [hBlk, hSame]
      exact hs
    · cases hTrue
  · cases h

lemma endOp_coherent {pid : Nat} (hs : Coherent s) (h : s.next (.endOp pid) = some t) : Coherent t := by
  simp only [Sys.next] at h
  split at h
  · rename_i hMem
    have hLength := List.length_erase_of_mem hMem
    have hPos := List.length_pos_of_mem hMem
    have hOut := hs.protocol.outstanding
    split at h
    · rename_i blk hEnd
      cases h
      obtain ⟨hLog, hBlk⟩ := onLog_ok hEnd
      obtain ⟨-, ⟨-, hLast, hNew⟩ | ⟨hFalse, -⟩⟩ := endOp_cases hLog
      · have hEmpty : s.ops.erase pid = [] := by
          apply List.eq_nil_of_length_eq_zero
          omega
        rw [hBlk, hNew, hEmpty]
        apply hs.withLog
        exact ⟨rfl, rfl, fun _ => rfl, hs.protocol.nodup, hs.protocol.logged, nofun⟩
      · cases hFalse
    · rename_i blk hEnd
      cases h
      obtain ⟨hLog, hBlk⟩ := onLog_ok hEnd
      obtain ⟨hIdle, ⟨hTrue, -⟩ | ⟨-, -, hNew⟩⟩ := endOp_cases hLog
      · cases hTrue
      · rw [hBlk, hNew]
        apply hs.withLog
        refine ⟨?_, hs.protocol.committing, fun hSome => ?_, hs.protocol.nodup, hs.protocol.logged, hs.protocol.pinned⟩
        · simp only [hLength, hOut]
          omega
        · rw [hs.protocol.quiet hSome, List.erase_nil]
    · cases h
  · cases h

lemma clear_coherent (hs : Coherent s) (h : s.next .clear = some t) : Coherent t := by
  simp only [Sys.next] at h
  split at h
  · rename_i hDone
    cases h
    apply hs.withLog
    refine ⟨hs.protocol.outstanding, hs.protocol.committing, hs.protocol.quiet, ⟨nodup_nil, hs.protocol.nodup.2⟩,
      fun n hn => ?_, fun _ => nofun⟩
    rw [hDone.2] at hn
    exact absurd hn not_mem_nil
  · cases h

lemma reopen_coherent (hs : Coherent s) (h : s.next .reopen = some t) : Coherent t := by
  simp only [Sys.next] at h
  split at h
  · rename_i hDone
    obtain ⟨blk, hEnd, rfl⟩ := section_some h
    cases hEnd
    apply hs.withLog
    refine ⟨hs.protocol.outstanding, rfl, nofun, hs.protocol.nodup, hs.protocol.logged, fun _ n hn => ?_⟩
    rw [hDone.2] at hn
    exact absurd hn not_mem_nil
  · cases h

lemma next_coherent {a : Act} (hs : Coherent s) (ha : OnDisk s a) (h : s.next a = some t) : Coherent t := by
  cases a with
  | bget pid n => exact bget_coherent hs ha h
  | acquire r => exact acquire_coherent hs h
  | fill r => exact fill_coherent hs h
  | store r d => exact store_coherent hs h
  | bwrite r => exact bwrite_coherent hs h
  | logWrite r => exact logWrite_coherent hs h
  | bpin r => exact bpin_coherent hs h
  | bunpin b => exact bunpin_coherent hs h
  | unpin r => exact unpin_coherent hs h
  | release r => exact release_coherent hs h
  | put r => exact put_coherent hs h
  | beginOp pid => exact beginOp_coherent hs h
  | endOp pid => exact endOp_coherent hs h
  | clear => exact clear_coherent hs h
  | reopen => exact reopen_coherent hs h

end

lemma Sys.Reaches.coherent {s : Sys} (h : s.Reaches) : Coherent s :=
  h.invariant (fun _ => Sys.Fresh.coherent) (fun _ _ _ hs ha hNext => next_coherent hs ha hNext)

/-- One buffer for a block, counts that are the references and pins, a list of all the
buffers that is linked both ways, and `bread` that delivers what has last been stored. -/
theorem cache_coherent {s : Sys} (h : s.Reaches) :
    (∀ i j, (s.blk.buf i).dev = rootdev → (s.blk.buf j).dev = rootdev →
      (s.blk.buf i).blockno = (s.blk.buf j).blockno → i = j) ∧
    (∀ i, (s.blk.buf i).refcnt = s.refs.countP (·.buf = i) + s.pins i + (inLog (s.blk.buf i) s.logPins).toNat) ∧
    (∃ L, L.Perm (List.finRange nbuf) ∧ s.blk.links.Ring L) ∧
    ∀ r ∈ s.refs, r.stage.usable = true →
      (s.blk.buf r.buf).lock = some r.pid ∧ (s.blk.buf r.buf).blockno = r.blockno ∧
      (s.blk.buf r.buf).data = s.stored r.blockno := by
  have hs := h.coherent
  refine ⟨hs.content.unique, fun i => ?_, hs.listed, fun r hr hUsable => ⟨?_, hs.content.named r hr, ?_⟩⟩
  · rw [hs.counted.refcnt i, Sys.pinCount, add_assoc]
  · exact hs.counted.owner r hr (usable_holds hUsable)
  · rw [← hs.content.named r hr]
    exact hs.content.data r.buf (hs.content.root r hr) (hs.content.valid r hr hUsable)

namespace Sample

def fresh : Sys where
  blk := {
    buf := fun _ => ⟨false, 0, 0, none, 0, Bytes.fill 0⟩
    links := binit
    disk := fun _ => Bytes.fill 0
    size := 2000
    start := 2
    log := ⟨0, false, []⟩ }
  refs := []
  pins := fun _ => 0
  logPins := []
  ops := []
  committer := none
  stored := fun _ => Bytes.fill 0

lemma fresh_fresh : fresh.Fresh :=
  ⟨fun _ => ⟨rfl, rfl, rfl, rfl⟩, rfl, rfl, ⟨rfl, fun _ => rfl, rfl, rfl, rfl⟩, rfl⟩

/-- The least recently used buffer after `binit`. -/
def buf0 : Bi := ⟨0, by decide⟩

/-- Process 1 stores a block and writes it, then process 2 reads block `m` into buffer `b`. -/
def writeRead (n m : Nat) (b : Bi) : List Act :=
  [.bget 1 n, .acquire ⟨1, n, buf0, .waiting⟩, .fill ⟨1, n, buf0, .locked⟩,
    .store ⟨1, n, buf0, .ready .clean⟩ (Bytes.fill 7), .bwrite ⟨1, n, buf0, .ready .modified⟩,
    .release ⟨1, n, buf0, .ready .written⟩, .put ⟨1, n, buf0, .leaving⟩,
    .bget 2 m, .acquire ⟨2, m, b, .waiting⟩, .fill ⟨2, m, b, .locked⟩]

end Sample

theorem cache_coherent_write_read : ∃ s : Sys, s.Reaches ∧ s.refs = [⟨2, 5, Sample.buf0, .ready .clean⟩] ∧
    (s.blk.buf Sample.buf0).data = s.stored 5 := by
  have hRun : ((Transition.run Sys.next (Sample.writeRead 5 5 Sample.buf0) Sample.fresh).any fun s =>
      decide (s.refs = [⟨2, 5, Sample.buf0, .ready .clean⟩])) = true := by decide +kernel
  have hAllowed : ∀ a ∈ Sample.writeRead 5 5 Sample.buf0, ∀ s, OnDisk s a := by
    intro a ha s
    simp only [Sample.writeRead, List.mem_cons, not_mem_nil, or_false] at ha
    rcases ha with rfl | rfl | rfl | rfl | rfl | rfl | rfl | rfl | rfl | rfl <;> simp [OnDisk]
  obtain ⟨s, hReaches, hTest⟩ := Transition.Reachable.exists_of_run (fun _ _ _ hNext => hNext) _ hAllowed (.start Sample.fresh_fresh) hRun
  have hRefs : s.refs = [⟨2, 5, Sample.buf0, .ready .clean⟩] := of_decide_eq_true hTest
  obtain ⟨-, -, -, hRead⟩ := cache_coherent hReaches
  have hRef := hRead ⟨2, 5, Sample.buf0, .ready .clean⟩ (by rw [hRefs]; exact List.mem_cons_self) rfl
  exact ⟨s, hReaches, hRefs, hRef.2.2⟩

/-- Block `2 ^ 22` is written, and block 0, in which nobody has stored anything, is then read with the bytes written. -/
theorem large_block_overwrites : ∃ s : Sys,
    Transition.Reachable Sys.Fresh (fun s a t => s.next a = some t) (fun _ _ => True) s ∧
    ∃ r ∈ s.refs, r.blockno = 0 ∧ r.stage = .ready .clean ∧ (s.stored 0).get 0 = 0 ∧ (s.blk.buf r.buf).data.get 0 = 7 := by
  have hRun : ((Transition.run Sys.next (Sample.writeRead (2 ^ 22) 0 ⟨1, by decide⟩) Sample.fresh).any fun s =>
      s.refs.any fun r => decide (r.blockno = 0 ∧ r.stage = .ready .clean ∧ (s.stored 0).get 0 = 0 ∧
        (s.blk.buf r.buf).data.get 0 = 7)) = true := by decide +kernel
  obtain ⟨s, hReaches, hTest⟩ := Transition.Reachable.exists_of_run (fun _ _ _ hNext => hNext) _ (fun _ _ _ => trivial)
    (.start Sample.fresh_fresh) hRun
  obtain ⟨r, hr, hRef⟩ := List.any_eq_true.mp hTest
  exact ⟨s, hReaches, r, hr, of_decide_eq_true hRef⟩

end Xv6K230.Blk
