import TieredCache.Proofs.FallingEntries
import TieredCache.Proofs.KeyViews

/-!
# What an insertion does to the other keys

An insertion takes out the copies of its key, puts one at the front of a tier and lets what it
displaces fall. Seen from the other keys it is a fall from above into the hierarchy without the key.

No tier stores an entry that another one stores as well, so an entry that has come into a tier is not
in the one above any more.
-/

namespace TieredCache

namespace Hierarchy

variable {K V : Type} [DecidableEq K] {now : Int}

/-! ### No entry is stored twice -/

/-- What holds of all entries, stored and in flight, and of all that are left when some are gone is
kept by the changes that write nothing. -/
theorem kept_of_contents (now : Int) {P : Multiset (K × Entry V) → Prop}
    (hP : ∀ {some all}, some ≤ all → P all → P some) :
    Kept now fun h flight => P ((flight : Multiset (K × Entry V)) + h.contents) where
  noted _ _ _ _ hh := hh
  lookedUp h l k hh := hP ((contents_kept now _).lookedUp h l k le_rfl) hh
  touched h l k hh := hP ((contents_kept now _).touched h l k le_rfl) hh
  raised h source target k e hfind hage hh :=
    hP ((contents_kept now _).raised h source target k e hfind hage le_rfl) hh
  resized h l capacity hh := hP ((contents_kept now _).resized h l capacity le_rfl) hh
  purged h hh := hP ((contents_kept now _).purged h le_rfl) hh
  gone h k e rest hh := hP ((contents_kept now _).gone h k e rest le_rfl) hh
  superseded h k e rest hheld hh := hP ((contents_kept now _).superseded h k e rest hheld le_rfl) hh
  lands h k e rest l hage hheld hh :=
    hP ((contents_kept now _).lands h k e rest l hage hheld le_rfl) hh

/-- An entry that is written now is not stored as long as its key is not held. -/
theorem not_mem_contents_of_not_contains {h : Hierarchy K V} {k : K} (v : V)
    (hheld : h.contains k now = false) : (k, ⟨v, now⟩) ∉ h.contents := by
  intro hmem
  obtain ⟨l, hstored⟩ := (h.mem_contents_iff k _).1 hmem
  have hl : (h.tier l).contains k now :=
    (Tier.contains_iff _ k now).2 ⟨_, hstored, Entry.not_expired_when_written v _ now⟩
  rw [(not_contains_iff h k now).1 hheld l] at hl
  exact absurd hl (by simp)

theorem nodup_keptByWrites (now : Int) : KeptByWrites now fun (h : Hierarchy K V) flight =>
    ((flight : Multiset (K × Entry V)) + h.contents).Nodup where
  toKept := kept_of_contents now fun hle hall => Multiset.nodup_of_le hle hall
  written h l k v hh := by
    rw [Multiset.coe_nil, zero_add] at hh
    rw [contents_placed, Multiset.nodup_cons]
    exact ⟨by simp, hh.filter _⟩
  loaded h k v hheld hh := by
    rw [Multiset.coe_nil, zero_add] at hh
    refine Multiset.nodup_of_le (h.contents_takeOver_put_le .cold k ⟨v, now⟩) ?_
    rw [Multiset.singleton_add, Multiset.nodup_cons]
    exact ⟨not_mem_contents_of_not_contains v hheld, hh⟩
  removed h k hh := by
    rw [Multiset.coe_nil, zero_add] at hh ⊢
    have hleft : (h.remove k).contents.Nodup := by
      rw [contents_remove]
      exact hh.filter _
    exact hleft
  cleared h hh := Multiset.nodup_zero

theorem level_eq_of_nodup {h : Hierarchy K V} (hh : h.contents.Nodup) {l m : Level} {k : K}
    {e : Entry V} (hl : (h.tier l).store.get? k = some e)
    (hm : (h.tier m).store.get? k = some e) : l = m := by
  by_contra hne
  have hsplit : (h.setTier l (h.tier l).clear).contents + (h.tier l).contents = h.contents :=
    (h.contents_setTier l _).trans (add_zero _)
  rw [← hsplit, Multiset.nodup_add] at hh
  have hrest : (k, e) ∈ (h.setTier l (h.tier l).clear).contents := by
    rw [mem_contents_iff]
    exact ⟨m, by rw [tier_setTier, if_neg (Ne.symm hne), hm]⟩
  exact Multiset.disjoint_left.1 hh.2.2 hrest ((Tier.mem_contents_iff _ k e).2 hl)

/-! ### The other keys -/

/-- The entries of a tier that are not of a key, most recently touched first. -/
def others (h : Hierarchy K V) (k : K) (l : Level) : List (K × Entry V) :=
  (h.tier l).ordered.filter fun p => p.1 ≠ k

variable {h : Hierarchy K V} {k : K}

theorem mem_others_iff (hconsistent : ∀ l, (h.tier l).Consistent) {l : Level} {j : K}
    {d : Entry V} : (j, d) ∈ h.others k l ↔ j ≠ k ∧ (h.tier l).store.get? j = some d := by
  rw [others, List.mem_filter, (hconsistent l).indexed.mem_ordered_iff, decide_eq_true_iff,
    and_comm]

theorem ordered_remove (hconsistent : ∀ l, (h.tier l).Consistent) (k : K) (l : Level) :
    ((h.remove k).tier l).ordered = h.others k l := by
  rw [tier_remove, (hconsistent l).indexed.ordered_remove]
  rfl

theorem consistent_remove (hconsistent : ∀ l, (h.tier l).Consistent) (k : K) (l : Level) :
    ((h.remove k).tier l).Consistent := by
  rw [tier_remove]
  exact (hconsistent l).remove k

theorem Sound.remove (hh : h.Sound now) (k : K) : (h.remove k).Sound now := by
  apply hh.of_within
  · exact consistent_remove hh.consistent k
  · intro l
    rw [tier_remove]
    exact Tier.remove_within _ k

theorem Sound.insertAt (hh : h.Sound now) (l : Level) (k : K) (e : Entry V) :
    (h.insertAt l k e now).Sound now :=
  (sound_keptByWrites now).toKept.settleAll _ l _ (hh.placed l k e)

/-- What comes into a tier by an insertion of another key was in the tier above. -/
def ComesDown (h : Hierarchy K V) (k : K) (m : Level) (p : K × Entry V) : Prop :=
  ∃ l, l.colder = some m ∧ p ∈ h.others k l

variable {l : Level} {e : Entry V}

/-- An insertion leaves the entries of the other keys in their order, all but one of each tier at
most. -/
theorem others_insertAt (hconsistent : ∀ l, (h.tier l).Consistent)
    (hage : e.expired (h.tier l).ttl now = false) (m : Level) : ∃ stayed,
    StaysInOrder (h.others k m) ((h.insertAt l k e now).others k m) (h.ComesDown k m) stayed := by
  obtain ⟨stayed, hstays⟩ := (falls_insertAt hconsistent l k hage).exists_stayed
    (consistent_remove hconsistent k) m
  rw [ordered_remove hconsistent] at hstays
  have hothers : (stayed.filter fun p => p.1 ≠ k) = stayed := by
    rw [List.filter_eq_self]
    intro p hp
    exact (List.mem_filter.1 (hstays.kept.subset hp)).2
  refine ⟨stayed, hstays.kept, ?_, hstays.allButOne, fun p hp => ?_⟩
  · rw [← hothers]
    exact hstays.still.filter _
  · obtain ⟨hp, hpk⟩ := List.mem_filter.1 hp
    refine (hstays.entered p hp).imp_right ?_
    rintro (⟨hflight, -⟩ | ⟨i, -, hcolder, hi⟩)
    · rw [List.mem_singleton.1 hflight] at hpk
      exact absurd hpk (by simp)
    · rw [ordered_remove hconsistent] at hi
      exact ⟨i, hcolder, hi⟩

/-- An entry of another key is afterwards in its tier or the next colder one, if it is stored. -/
theorem level_after_insertAt (hconsistent : ∀ l, (h.tier l).Consistent) (hnodup : h.contents.Nodup)
    (hage : e.expired (h.tier l).ttl now = false) {i m : Level} {p : K × Entry V}
    (hbefore : p ∈ h.others k i) (hafter : p ∈ (h.insertAt l k e now).others k m) :
    m = i ∨ i.colder = some m := by
  have hstored := ((mem_others_iff hconsistent).1 hbefore).2
  have hsame : ∀ {i'}, p ∈ h.others k i' → i' = i := fun hp =>
    level_eq_of_nodup hnodup ((mem_others_iff hconsistent).1 hp).2 hstored
  obtain ⟨stayed, hstays⟩ := others_insertAt hconsistent hage m
  rcases hstays.entered p hafter with hp | ⟨i', hcolder, hp⟩
  · exact .inl (hsame (hstays.kept.subset hp))
  · exact .inr (hsame hp ▸ hcolder)

/-- What has not stayed in a tier has gone down by one or is nowhere. -/
theorem moved_insertAt (hconsistent : ∀ l, (h.tier l).Consistent) (hnodup : h.contents.Nodup)
    (hage : e.expired (h.tier l).ttl now = false) (i : Level) :
    ∃ stayed : List (K × Entry V), stayed.Sublist (h.others k i) ∧
      stayed.Sublist ((h.insertAt l k e now).others k i) ∧
      (h.others k i).length ≤ stayed.length + 1 ∧
      ∀ p ∈ h.others k i, p ∈ stayed ∨
        (∃ next ∈ i.colder, p ∈ (h.insertAt l k e now).others k next) ∨
        ∀ m, p ∉ (h.insertAt l k e now).others k m := by
  obtain ⟨stayed, hstays⟩ := others_insertAt hconsistent hage i
  refine ⟨stayed, hstays.kept, hstays.still, hstays.allButOne, fun p hp => ?_⟩
  by_cases hstayed : p ∈ stayed
  · exact .inl hstayed
  by_cases hdown : ∃ next ∈ i.colder, p ∈ (h.insertAt l k e now).others k next
  · exact .inr (.inl hdown)
  refine .inr (.inr fun m hm => ?_)
  rcases level_after_insertAt hconsistent hnodup hage hp hm with rfl | hcolder
  · -- It cannot have come into its own tier from above: it was not stored there.
    rcases hstays.entered p hm with hin | ⟨i', hcolder, hi'⟩
    · exact hstayed hin
    · have hstored := ((mem_others_iff hconsistent).1 hp).2
      obtain rfl := level_eq_of_nodup hnodup ((mem_others_iff hconsistent).1 hi').2 hstored
      exact Level.colder_ne_self _ hcolder
  · exact hdown ⟨m, hcolder, hm⟩

theorem find?_remove {j : K} (hj : j ≠ k) (l : Level) :
    ((h.remove k).tier l).find? j now = (h.tier l).find? j now :=
  (agree_remove hj h).find? l now

theorem ttl_remove (h : Hierarchy K V) (k : K) (l : Level) :
    ((h.remove k).tier l).ttl = (h.tier l).ttl := by
  rw [tier_remove, (Tier.remove_alike _ k).ttl]

theorem PushedOut.not_stored {levels : List Level} {h' : Hierarchy K V} {p : K × Entry V}
    (hp : PushedOut levels (h.remove k) h' l p) (hconsistent : ∀ l, (h.tier l).Consistent)
    {m : Level} (hm : m ∈ levels) (hnot : ¬ l.isHotterThan m) :
    (h.tier m).store.get? k = none := by
  have hfull := hp.full m hm hnot
  rw [tier_remove] at hfull
  exact (hconsistent m).not_stored_of_full hfull

theorem PushedOut.last_of_remove {levels : List Level} {h' : Hierarchy K V} {p : K × Entry V}
    (hp : PushedOut levels (h.remove k) h' l p) (hconsistent : ∀ l, (h.tier l).Consistent) :
    (h.tier l).ordered.getLast? = some p := by
  have hlast := hp.last
  rw [tier_remove, Tier.remove_of_not_stored] at hlast
  · exact hlast
  · exact hp.not_stored hconsistent hp.reached (by simp [Level.isHotterThan])

/-- The other held entries are still found after an insertion, in their tiers or one below. One at
most is not: it was pushed out of its tier and is too old for the next. -/
theorem find?_insertAt (hh : h.Sound now) (hage : e.expired (h.tier l).ttl now = false) :
    ∃ lost : Option (K × Entry V), ∀ m j d, j ≠ k → (h.tier m).find? j now = some d →
      ((j, d) ∈ lost ∧
        PushedOut (l :: l.below) (h.remove k) (h.insertAt l k e now) m (j, d) ∧
        ∀ next ∈ m.colder, d.expired (h.tier next).ttl now) ∨
      ((h.insertAt l k e now).tier m).find? j now = some d ∨
      ∃ next ∈ m.colder, ((h.insertAt l k e now).tier next).find? j now = some d := by
  obtain ⟨lost, hlost⟩ := (falls_insertAt hh.consistent l k hage).exists_lost (hh.remove k)
  refine ⟨lost, fun m j d hj hd => ?_⟩
  simpa only [ttl_remove] using hlost.held m j d (by rwa [find?_remove hj])

theorem stored_insertAt (hconsistent : ∀ l, (h.tier l).Consistent)
    (hage : e.expired (h.tier l).ttl now = false) {m : Level} {j : K} {d : Entry V} (hj : j ≠ k)
    (hd : (h.tier m).store.get? j = some d) :
    ((h.insertAt l k e now).tier m).store.contains j ∨
      PushedOut (l :: l.below) (h.remove k) (h.insertAt l k e now) m (j, d) := by
  have hstored := congrArg Prod.snd ((agree_remove hj h).tier m)
  exact (falls_insertAt hconsistent l k hage).stored_or_pushedOut
    (consistent_remove hconsistent k) (hstored.trans hd)

end Hierarchy

end TieredCache
