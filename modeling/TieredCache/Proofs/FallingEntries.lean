import TieredCache.Proofs.EntryPaths
import TieredCache.Proofs.SingleResidency
import TieredCache.Proofs.TierOrder

/-!
# How far displaced entries fall

An entry that leaves a tier lands in the next colder one, where it displaces at most one other.
`Hierarchy.Falls` describes such a fall by the tiers before and after it. From this follow the three
things that can be said of all entries at once: each tier keeps all but one of its entries in their
order, an entry moves by one tier at most, and one entry at most is lost. An entry leaves its tier
only if every tier that the fall has come through was full.
-/

namespace TieredCache

theorem Store.insert_erase {K α : Type} [DecidableEq K] (s : Store K α) (k : K) (a : α) :
    (s.erase k).insert k a = s.insert k a := by
  have herase : ((s.erase k).erase k).entries = (s.erase k).entries :=
    erase_of_get?_eq_none _ (get?_erase_self s k)
  simp only [insert, herase]

namespace Level

theorem not_mem_below (l : Level) : l ∉ l.below := by
  cases l <;> decide

theorem colder_ne_self (l : Level) : l.colder ≠ some l := by
  cases l <;> decide

theorem head?_below (l : Level) : l.below.head? = l.colder := by
  cases l <;> rfl

theorem isHotterThan_of_mem_below {l m : Level} (hm : m ∈ l.below) : l.isHotterThan m := by
  cases l <;> cases m <;> first | rfl | exact absurd hm (by decide)

end Level

/-- Some entries of a list stay in it in their order, all but one at most, and each of the others in
it afterwards has come in. -/
structure StaysInOrder {α : Type} (before after : List α) (Enters : α → Prop) (stayed : List α) :
    Prop where
  kept : stayed.Sublist before
  still : stayed.Sublist after
  allButOne : before.length ≤ stayed.length + 1
  entered : ∀ p ∈ after, p ∈ stayed ∨ Enters p

theorem StaysInOrder.refl {α : Type} (list : List α) (Enters : α → Prop) :
    StaysInOrder list list Enters list :=
  ⟨List.Sublist.refl _, List.Sublist.refl _, Nat.le_succ _, fun _ hp => .inl hp⟩

/-! ### One write -/

namespace Tier

variable {K V : Type} {t : Tier K V}

/-- A tier without room for another key. -/
def IsFull (t : Tier K V) : Prop :=
  t.capacity.value ≤ t.size

variable [DecidableEq K] {j k : K} {d e : Entry V}

theorem Indexed.length_ordered_le_filter (h : t.Indexed) (k : K) :
    t.ordered.length ≤ (t.ordered.filter fun p => p.1 ≠ k).length + 1 := by
  have hleft : (t.discard k).recency = t.recency.erase k := rfl
  rw [← h.ordered_discard, (h.discard k).length_ordered, h.length_ordered, hleft,
    List.length_erase]
  split <;> omega

theorem Consistent.length_discard_lt (h : t.Consistent) (hd : t.store.get? k = some d) :
    (t.discard k).recency.length < t.capacity.value := by
  have hk : k ∈ t.recency := by
    rw [h.indexed.mem_recency_iff, Store.contains, hd]
    rfl
  have hlt : (t.recency.erase k).length < t.recency.length := by
    rw [List.length_erase_of_mem hk]
    exact Nat.sub_lt (List.length_pos_of_mem hk) Nat.one_pos
  exact Nat.lt_of_lt_of_le hlt h.fits

theorem remove_of_not_stored (hk : t.store.get? k = none) : (t.remove k).2 = t := by
  rw [remove, hk]

/-- A tier that is full without a key does not store it. -/
theorem Consistent.not_stored_of_full (h : t.Consistent) (hfull : (t.remove k).2.IsFull) :
    t.store.get? k = none := by
  cases hstored : t.store.get? k with
  | none => rfl
  | some d =>
    have hlt := h.length_discard_lt hstored
    rw [(h.indexed.discard k).length_recency] at hlt
    rw [Tier.remove, hstored] at hfull
    exact absurd hfull (Nat.not_le_of_lt hlt)

/-- A write does not depend on an entry of its key that it replaces. -/
theorem Consistent.put_remove (h : t.Consistent) (k : K) (e : Entry V) :
    (t.remove k).2.put k e = t.put k e := by
  rw [Tier.remove]
  cases hstored : t.store.get? k with
  | none => rfl
  | some d =>
    have hk : k ∈ t.recency := by
      rw [h.indexed.mem_recency_iff, Store.contains, hstored]
      rfl
    have hleft : k ∉ t.recency.erase k := h.indexed.nodup.not_mem_erase
    rw [put_of_room e (.inl hk), put_of_room e (.inr (h.length_discard_lt hstored))]
    simp only [Tier.discard, List.erase_of_not_mem hleft, Store.insert_erase]

theorem Consistent.put_split (h : t.Consistent) (k : K) (e : Entry V) :
    ∃ stayed, (t.put k e).tier.ordered = (k, e) :: stayed ∧
      (t.ordered.filter fun p => p.1 ≠ k) = stayed ++ (t.put k e).evicted := by
  obtain ⟨room, hroom⟩ := Nat.exists_eq_succ_of_ne_zero t.capacity.positive.ne'
  obtain ⟨htier, hevicted⟩ := h.ordered_put k e
  refine ⟨(t.ordered.filter fun p => p.1 ≠ k).take room, ?_, ?_⟩
  · rw [htier, hroom, List.take_succ_cons]
  · rw [hevicted, hroom, List.drop_succ_cons, List.take_append_drop]

/-- Only a new key displaces an entry, and only from a full tier. -/
theorem Indexed.full_of_evicted (h : t.Indexed) (hevicted : (t.put k e).evicted ≠ []) :
    t.IsFull ∧ t.store.get? k = none := by
  obtain ⟨-, hput⟩ | ⟨front, j, d, hk, hfull, -, -, -⟩ := h.put_cases k e
  · rw [hput] at hevicted
    exact absurd rfl hevicted
  · rw [h.length_recency] at hfull
    rw [h.mem_recency_iff, Store.contains, Option.isSome_iff_ne_none, not_not] at hk
    exact ⟨hfull, hk⟩

theorem Consistent.stays_put (h : t.Consistent) (k : K) (e : Entry V) :
    ∃ stayed, StaysInOrder t.ordered (t.put k e).tier.ordered (· = (k, e)) stayed := by
  obtain ⟨stayed, hordered, hsplit⟩ := h.put_split k e
  have hprefix : stayed.Sublist (t.ordered.filter fun p => p.1 ≠ k) := by
    rw [hsplit]
    exact List.sublist_append_left _ _
  refine ⟨stayed, hprefix.trans List.filter_sublist, ?_, ?_, ?_⟩
  · rw [hordered]
    exact List.sublist_cons_self _ _
  · have hlength := congrArg List.length hsplit
    rw [List.length_append] at hlength
    -- Either the replaced entry is missing, or a displaced one.
    by_cases hevicted : (t.put k e).evicted = []
    · have hone := h.indexed.length_ordered_le_filter k
      rw [hevicted, List.length_nil] at hlength
      omega
    · have hone := length_put_evicted_le t k e
      rw [h.indexed.filter_ordered (h.indexed.full_of_evicted hevicted).2] at hlength
      omega
  · intro p hp
    rw [hordered, List.mem_cons] at hp
    exact hp.symm

theorem Consistent.last_of_evicted (h : t.Consistent) (hd : (j, d) ∈ (t.put k e).evicted) :
    (t.put k e).evicted = [(j, d)] ∧ t.ordered.getLast? = some (j, d) := by
  have hone := length_put_evicted_le t k e
  have hsingle : (t.put k e).evicted = [(j, d)] := by
    match hevicted : (t.put k e).evicted with
    | [] =>
      rw [hevicted] at hd
      exact absurd hd (by simp)
    | [p] =>
      rw [hevicted, List.mem_singleton] at hd
      rw [hd]
    | p :: q :: rest =>
      rw [hevicted, List.length_cons, List.length_cons] at hone
      omega
  obtain ⟨-, hnone⟩ := h.indexed.full_of_evicted (List.ne_nil_of_mem hd)
  obtain ⟨stayed, -, hsplit⟩ := h.put_split k e
  rw [h.indexed.filter_ordered hnone, hsingle] at hsplit
  exact ⟨hsingle, by rw [hsplit, List.getLast?_concat]⟩

theorem find?_eq_some_iff {now : Int} :
    t.find? k now = some e ↔ t.store.get? k = some e ∧ e.expired t.ttl now = false := by
  rw [find?, Option.filter_eq_some_iff, Bool.not_eq_true']

theorem contains_of_find? {now : Int} (h : t.find? k now = some e) : t.contains k now := by
  rw [contains, h]
  rfl

theorem not_stored_of_evicted (hd : (j, d) ∈ (t.put k e).evicted) :
    j ≠ k ∧ (t.put k e).tier.store.get? j = none := by
  obtain ⟨order, hput⟩ | ⟨i, c, order, hi, -, hput⟩ := t.put_cases k e
  · rw [hput] at hd
    exact absurd hd (by simp)
  · rw [hput, List.mem_singleton] at hd
    obtain ⟨rfl, -⟩ := Prod.mk.inj hd
    rw [hput, Store.get?_insert_of_ne _ e hi]
    exact ⟨hi, Store.get?_erase_self _ j⟩

theorem stays_or_evicted (e : Entry V) (hj : j ≠ k) (hd : t.store.get? j = some d) :
    (t.put k e).tier.store.get? j = some d ∨ (j, d) ∈ (t.put k e).evicted := by
  obtain ⟨order, hput⟩ | ⟨i, c, order, -, hc, hput⟩ := t.put_cases k e
  · rw [hput]
    exact .inl ((Store.get?_insert_of_ne _ e hj).trans hd)
  · rw [hput, Store.get?_insert_of_ne _ e hj, Store.get?_erase]
    by_cases hi : j = i
    · subst hi
      obtain rfl := Option.some.inj (hd.symm.trans hc)
      exact .inr (List.mem_singleton_self _)
    · rw [if_neg hi]
      exact .inl hd

end Tier

/-! ### Falls -/

namespace Hierarchy

variable {K V : Type} [DecidableEq K] {now : Int}

/-- How entries come down some levels, at most one at a time. One ends if it is too old for the next
level or there is none, and if its key is held. Otherwise it lands, and what it displaces falls on
from there. -/
inductive Falls (now : Int) :
    List Level → Hierarchy K V → List (K × Entry V) → Hierarchy K V → Prop where
  | settled {levels : List Level} {h h' : Hierarchy K V} (hsame : ∀ m, h'.tier m = h.tier m) :
      Falls now levels h [] h'
  | gone {levels : List Level} {h h' : Hierarchy K V} {k : K} {e : Entry V}
      (hend : ∀ next ∈ levels.head?, e.expired (h.tier next).ttl now = true)
      (hsame : ∀ m, h'.tier m = h.tier m) : Falls now levels h [(k, e)] h'
  | superseded {levels : List Level} {h h' : Hierarchy K V} {k : K} {e : Entry V}
      (hheld : h.contains k now = true) (hsame : ∀ m, h'.tier m = h.tier m) :
      Falls now levels h [(k, e)] h'
  | lands {l : Level} {h between h' : Hierarchy K V} {k : K} {e : Entry V}
      (hage : e.expired (h.tier l).ttl now = false) (hheld : h.contains k now = false)
      (hlanded : ∀ m, between.tier m = if m = l then ((h.tier l).put k e).tier else h.tier m)
      (hrest : Falls now l.below between ((h.tier l).put k e).evicted h') :
      Falls now (l :: l.below) h [(k, e)] h'

theorem falls_settleAll (h : Hierarchy K V) (l : Level) {flight : List (K × Entry V)}
    (hone : flight.length ≤ 1) : Falls now l.below h flight (h.settleAll l flight now) := by
  obtain ⟨levels, hlevels⟩ : ∃ levels, l.below = levels := ⟨_, rfl⟩
  unfold settleAll
  rw [hlevels]
  induction levels generalizing h l flight with
  | nil =>
    match flight with
    | [] => exact .settled fun _ => rfl
    | [(k, e)] => exact .gone (fun next hnext => absurd hnext (by simp)) fun _ => rfl
    | p :: q :: rest => exact absurd hone (by simp)
  | cons next colder ih =>
    obtain ⟨-, rfl⟩ := Level.colder_of_below_eq_cons hlevels
    match flight with
    | [] => exact .settled fun _ => rfl
    | [(k, e)] =>
      rw [List.foldl_cons, List.foldl_nil, settle_cons]
      split
      · rename_i hage
        refine .gone ?_ fun _ => rfl
        rintro _ ⟨⟩
        exact hage
      · rename_i hage
        split
        · rename_i hheld
          exact .superseded hheld fun _ => rfl
        · rename_i hheld
          rw [Bool.not_eq_true] at hage hheld
          exact .lands hage hheld (fun m => h.tier_landed next m k e)
            (ih _ next (Tier.length_put_evicted_le _ k e) rfl)
    | p :: q :: rest => exact absurd hone (by simp)

/-- An insertion is a fall from above: its key was taken out of all tiers first. -/
theorem falls_insertAt {h : Hierarchy K V} (hconsistent : ∀ l, (h.tier l).Consistent) (l : Level)
    (k : K) {e : Entry V} (hage : e.expired (h.tier l).ttl now = false) :
    Falls now (l :: l.below) (h.remove k) [(k, e)] (h.insertAt l k e now) := by
  have hput : ((h.remove k).tier l).put k e = (h.tier l).put k e := by
    rw [tier_remove, (hconsistent l).put_remove]
  have hplaced : ∀ m, (h.placed l k e).tier m =
      if m = l then (((h.remove k).tier l).put k e).tier else (h.remove k).tier m := by
    intro m
    rw [hput, tier_placed, tier_remove]
  refine .lands ?_ ?_ hplaced ?_
  · rw [tier_remove, (Tier.remove_alike _ k).ttl, hage]
  · rw [not_contains_iff]
    intro m
    rw [tier_remove, Tier.not_contains_remove_self]
  · rw [hput]
    exact falls_settleAll _ l (Tier.length_put_evicted_le _ k e)

namespace Falls

variable {levels : List Level} {h h' : Hierarchy K V} {flight : List (K × Entry V)}

theorem of_nil (hf : Falls now levels h [] h') (m : Level) : h'.tier m = h.tier m := by
  cases hf with
  | settled hsame => exact hsame m

theorem tier_of_not_mem (hf : Falls now levels h flight h') {m : Level} (hm : m ∉ levels) :
    h'.tier m = h.tier m := by
  induction hf with
  | settled hsame => exact hsame m
  | gone _ hsame => exact hsame m
  | superseded _ hsame => exact hsame m
  | lands _ _ hlanded _ ih =>
    rw [List.mem_cons, not_or] at hm
    rw [ih hm.2, hlanded, if_neg hm.1]

end Falls

/-- An entry was the least recently touched one of its tier and has left it, and all tiers from the
first level down to its own were full. -/
structure PushedOut (levels : List Level) (h h' : Hierarchy K V) (l : Level) (p : K × Entry V) :
    Prop where
  reached : l ∈ levels
  last : (h.tier l).ordered.getLast? = some p
  left : (h'.tier l).store.get? p.1 = none
  full : ∀ m ∈ levels, ¬ l.isHotterThan m → (h.tier m).IsFull

section Landed

variable {l : Level} {h between h' : Hierarchy K V} {k : K} {e : Entry V}
  (hlanded : ∀ m, between.tier m = if m = l then ((h.tier l).put k e).tier else h.tier m)

include hlanded

theorem consistent_of_landed (hconsistent : ∀ m, (h.tier m).Consistent) (m : Level) :
    (between.tier m).Consistent := by
  rw [hlanded]
  split
  · exact (hconsistent l).put k e
  · exact hconsistent m

theorem ttl_of_landed (m : Level) : (between.tier m).ttl = (h.tier m).ttl := by
  rw [hlanded]
  split
  · rename_i hm
    rw [(Tier.put_alike _ _ _).ttl, hm]
  · rfl

theorem tier_of_landed {m : Level} (hm : m ∈ l.below) : between.tier m = h.tier m := by
  rw [hlanded, if_neg]
  rintro rfl
  exact m.not_mem_below hm

/-- What falls on from a tier does not come back to it. -/
theorem Falls.tier_landed {flight : List (K × Entry V)}
    (hrest : Falls now l.below between flight h') : h'.tier l = ((h.tier l).put k e).tier := by
  rw [hrest.tier_of_not_mem l.not_mem_below, hlanded, if_pos rfl]

theorem Falls.pushedOut (hrest : Falls now l.below between ((h.tier l).put k e).evicted h')
    (hconsistent : ∀ m, (h.tier m).Consistent) {p : K × Entry V}
    (hp : p ∈ ((h.tier l).put k e).evicted) : PushedOut (l :: l.below) h h' l p where
  reached := List.mem_cons_self
  last := ((hconsistent l).last_of_evicted hp).2
  left := by
    rw [hrest.tier_landed hlanded]
    exact (Tier.not_stored_of_evicted hp).2
  full m hm hnot := by
    rcases List.mem_cons.1 hm with rfl | hbelow
    · exact ((hconsistent m).indexed.full_of_evicted (List.ne_nil_of_mem hp)).1
    · exact absurd (Level.isHotterThan_of_mem_below hbelow) hnot

/-- A key that was held in the tier it leaves is held in no other. -/
theorem Sound.not_contains_evicted (hh : h.Sound now) {j : K} {d : Entry V}
    (hd : (h.tier l).find? j now = some d) (hevicted : (j, d) ∈ ((h.tier l).put k e).evicted) :
    between.contains j now = false := by
  rw [not_contains_iff]
  intro m
  rw [hlanded, ← Bool.not_eq_true]
  intro hm
  split at hm
  · rw [Tier.contains, Tier.find?, (Tier.not_stored_of_evicted hevicted).2] at hm
    exact absurd hm (by simp)
  · rename_i hne
    exact hne (hh.single j m l hm (Tier.contains_of_find? hd))

theorem PushedOut.of_landed {m : Level} {p : K × Entry V} (hp : PushedOut l.below between h' m p)
    (hfull : (h.tier l).IsFull) : PushedOut (l :: l.below) h h' m p := by
  refine ⟨List.mem_cons_of_mem l hp.reached, ?_, hp.left, ?_⟩
  · rw [← tier_of_landed hlanded hp.reached]
    exact hp.last
  · intro i hi hnot
    rcases List.mem_cons.1 hi with rfl | hbelow
    · exact hfull
    · rw [← tier_of_landed hlanded hbelow]
      exact hp.full i hbelow hnot

end Landed

namespace Falls

variable {levels : List Level} {h h' : Hierarchy K V} {flight : List (K × Entry V)}

/-- What comes into a tier has fallen from the one above, or was in flight from the start. -/
def Enters (levels : List Level) (h : Hierarchy K V) (flight : List (K × Entry V)) (m : Level)
    (p : K × Entry V) : Prop :=
  p ∈ flight ∧ levels.head? = some m ∨
    ∃ l ∈ levels, l.colder = some m ∧ p ∈ (h.tier l).ordered

/-- Each tier keeps its entries in their order, all but one at most. -/
theorem exists_stayed (hf : Falls now levels h flight h')
    (hconsistent : ∀ l, (h.tier l).Consistent) (m : Level) : ∃ stayed,
    StaysInOrder (h.tier m).ordered (h'.tier m).ordered (Enters levels h flight m) stayed := by
  induction hf with
  | settled hsame => exact hsame m ▸ ⟨_, .refl _ _⟩
  | gone _ hsame => exact hsame m ▸ ⟨_, .refl _ _⟩
  | superseded _ hsame => exact hsame m ▸ ⟨_, .refl _ _⟩
  | @lands l h between h' k e _ _ hlanded hrest ih =>
    by_cases hm : m = l
    · subst hm
      obtain ⟨stayed, hstays⟩ := (hconsistent m).stays_put k e
      rw [hrest.tier_landed hlanded]
      refine ⟨stayed, hstays.kept, hstays.still, hstays.allButOne, fun p hp => ?_⟩
      refine (hstays.entered p hp).imp_right ?_
      rintro rfl
      exact .inl ⟨List.mem_singleton_self _, rfl⟩
    · obtain ⟨stayed, hstays⟩ := ih (consistent_of_landed hlanded hconsistent)
      have hsame : between.tier m = h.tier m := by rw [hlanded, if_neg hm]
      rw [← hsame]
      refine ⟨stayed, hstays.kept, hstays.still, hstays.allButOne, fun p hp => ?_⟩
      refine (hstays.entered p hp).imp_right ?_
      rintro (⟨hflight, hhead⟩ | ⟨i, hi, hcolder, hp⟩)
      · rw [l.head?_below] at hhead
        have hstored := Tier.stored_of_put_evicted (j := p.1) (d := p.2) hflight
        exact .inr ⟨l, List.mem_cons_self, hhead,
          ((hconsistent l).indexed.mem_ordered_iff p.1 p.2).2 hstored⟩
      · rw [tier_of_landed hlanded hi] at hp
        exact .inr ⟨i, List.mem_cons_of_mem l hi, hcolder, hp⟩

/-- A fall loses at most one entry, which was in flight or is pushed out by it and is too old for the
next level. All other held entries are still where they were or one level below. -/
structure Loses (now : Int) (levels : List Level) (h : Hierarchy K V)
    (flight : List (K × Entry V)) (h' : Hierarchy K V) (lost : Option (K × Entry V)) : Prop where
  nothing : flight = [] → lost = none
  inFlight : ∀ p ∈ flight,
    (p ∈ lost ∧ ∀ next ∈ levels.head?, p.2.expired (h.tier next).ttl now) ∨
    h.contains p.1 now ∨ ∃ next ∈ levels.head?, (h'.tier next).find? p.1 now = some p.2
  held : ∀ l j d, (h.tier l).find? j now = some d →
    ((j, d) ∈ lost ∧ PushedOut levels h h' l (j, d) ∧
      ∀ next ∈ l.colder, d.expired (h.tier next).ttl now) ∨
    (h'.tier l).find? j now = some d ∨ ∃ next ∈ l.colder, (h'.tier next).find? j now = some d

section Landed

variable {l : Level} {between : Hierarchy K V} {k : K} {e : Entry V} {lost : Option (K × Entry V)}
  (hlanded : ∀ m, between.tier m = if m = l then ((h.tier l).put k e).tier else h.tier m)
  (hlost : Loses now l.below between ((h.tier l).put k e).evicted h' lost)

include hlanded hlost

/-- An entry stays in the tier in which another lands, or is displaced and falls on from there. -/
theorem Loses.held_in_landed (hrest : Falls now l.below between ((h.tier l).put k e).evicted h')
    (hh : h.Sound now) {j : K} {d : Entry V} (hj : j ≠ k) (hd : (h.tier l).find? j now = some d) :
    ((j, d) ∈ lost ∧ PushedOut (l :: l.below) h h' l (j, d) ∧
      ∀ next ∈ l.colder, d.expired (h.tier next).ttl now) ∨
    (h'.tier l).find? j now = some d ∨
    ∃ next ∈ l.colder, (h'.tier next).find? j now = some d := by
  obtain ⟨hstored, hlive⟩ := Tier.find?_eq_some_iff.1 hd
  rcases Tier.stays_or_evicted e hj hstored with hstays | hevicted
  · refine .inr (.inl ?_)
    rw [hrest.tier_landed hlanded, Tier.find?_eq_some_iff, (Tier.put_alike _ _ _).ttl]
    exact ⟨hstays, hlive⟩
  · have hflight := hlost.inFlight _ hevicted
    rw [l.head?_below] at hflight
    rcases hflight with ⟨hgone, hold⟩ | hcopy | hfound
    · refine .inl ⟨hgone, hrest.pushedOut hlanded hh.consistent hevicted, ?_⟩
      simpa only [ttl_of_landed hlanded] using hold
    · -- Another copy would have been held together with this one.
      rw [hh.not_contains_evicted hlanded hd hevicted] at hcopy
      exact absurd hcopy (by simp)
    · exact .inr (.inr hfound)

theorem Loses.held_elsewhere (hh : h.Sound now) {m : Level} {j : K} {d : Entry V} (hm : m ≠ l)
    (hd : (h.tier m).find? j now = some d) :
    ((j, d) ∈ lost ∧ PushedOut (l :: l.below) h h' m (j, d) ∧
      ∀ next ∈ m.colder, d.expired (h.tier next).ttl now) ∨
    (h'.tier m).find? j now = some d ∨
    ∃ next ∈ m.colder, (h'.tier next).find? j now = some d := by
  refine (hlost.held m j d (by rwa [hlanded, if_neg hm])).imp_left ?_
  rintro ⟨hgone, hout, hold⟩
  -- Without a displaced entry the fall would be over, and nothing lost.
  have hevicted : ((h.tier l).put k e).evicted ≠ [] := by
    intro hnil
    rw [hlost.nothing hnil] at hgone
    exact absurd hgone (by simp)
  have hfull := ((hh.consistent l).indexed.full_of_evicted hevicted).1
  refine ⟨hgone, hout.of_landed hlanded hfull, ?_⟩
  simpa only [ttl_of_landed hlanded] using hold

end Landed

theorem exists_lost (hf : Falls now levels h flight h') (hh : h.Sound now) :
    ∃ lost, Loses now levels h flight h' lost := by
  induction hf with
  | settled hsame =>
    refine ⟨none, fun _ => rfl, by simp, fun l j d hd => .inr (.inl ?_)⟩
    rwa [hsame]
  | @gone levels h h' k e hend hsame =>
    refine ⟨some (k, e), by simp, ?_, fun l j d hd => .inr (.inl ?_)⟩
    · intro p hp
      rw [List.mem_singleton.1 hp]
      exact .inl ⟨rfl, hend⟩
    · rwa [hsame]
  | @superseded levels h h' k e hheld hsame =>
    refine ⟨none, by simp, ?_, fun l j d hd => .inr (.inl ?_)⟩
    · intro p hp
      rw [List.mem_singleton.1 hp]
      exact .inr (.inl hheld)
    · rwa [hsame]
  | @lands l h between h' k e hage hheld hlanded hrest ih =>
    obtain ⟨lost, hlost⟩ := ih (hh.of_put hheld hlanded)
    refine ⟨lost, by simp, ?_, ?_⟩
    · intro p hp
      rw [List.mem_singleton.1 hp]
      refine .inr (.inr ⟨l, rfl, ?_⟩)
      rw [hrest.tier_landed hlanded, Tier.find?_eq_some_iff, Tier.get?_put_self,
        (Tier.put_alike _ _ _).ttl]
      exact ⟨rfl, hage⟩
    · intro m j d hd
      have hj : j ≠ k := by
        rintro rfl
        have hnone := (not_contains_iff h j now).1 hheld m
        rw [Tier.contains_of_find? hd] at hnone
        exact absurd hnone (by simp)
      by_cases hm : m = l
      · subst hm
        exact hlost.held_in_landed hlanded hrest hh hj hd
      · exact hlost.held_elsewhere hlanded hh hm hd

/-- A stored key stays stored in its tier, unless its entry is pushed out. -/
theorem stored_or_pushedOut (hf : Falls now levels h flight h')
    (hconsistent : ∀ l, (h.tier l).Consistent) {m : Level} {j : K} {d : Entry V}
    (hd : (h.tier m).store.get? j = some d) :
    (h'.tier m).store.contains j ∨ PushedOut levels h h' m (j, d) := by
  have hunchanged : ∀ {h h' : Hierarchy K V}, (h.tier m).store.get? j = some d →
      h'.tier m = h.tier m → (h'.tier m).store.contains j := by
    intro h h' hd hsame
    rw [hsame, Store.contains, hd]
    rfl
  induction hf with
  | settled hsame => exact .inl (hunchanged hd (hsame m))
  | gone _ hsame => exact .inl (hunchanged hd (hsame m))
  | superseded _ hsame => exact .inl (hunchanged hd (hsame m))
  | @lands l h between h' k e _ _ hlanded hrest ih =>
    by_cases hm : m = l
    · subst hm
      rw [hrest.tier_landed hlanded, Store.contains]
      by_cases hj : j = k
      · subst hj
        rw [Tier.get?_put_self]
        exact .inl rfl
      · rcases Tier.stays_or_evicted e hj hd with hstays | hevicted
        · rw [hstays]
          exact .inl rfl
        · exact .inr (hrest.pushedOut hlanded hconsistent hevicted)
    · have hbetween : (between.tier m).store.get? j = some d := by rwa [hlanded, if_neg hm]
      by_cases hevicted : ((h.tier l).put k e).evicted = []
      · rw [hevicted] at hrest
        exact .inl (hunchanged hbetween (hrest.of_nil m))
      · have hfull := ((hconsistent l).indexed.full_of_evicted hevicted).1
        rcases ih (consistent_of_landed hlanded hconsistent) hbetween with hstays | hout
        · exact .inl hstays
        · exact .inr (hout.of_landed hlanded hfull)

end Falls

end Hierarchy

end TieredCache
