import TieredCache.Proofs.Contents

/-!
# Where an entry can get to

An entry falls from its tier to the next colder one if it is young enough there, and rises from a
tier that holds it unexpired to one where it is young enough too. A property of entries in their
tiers that such moves keep is a property of every entry after every run.
-/

namespace TieredCache

namespace Tier

variable {K V : Type} [DecidableEq K] {t : Tier K V} {j k : K} {d e : Entry V}

theorem stored_of_put_evicted (h : (j, d) ∈ (t.put k e).evicted) : t.store.get? j = some d := by
  obtain ⟨order, hput⟩ | ⟨i, c, order, -, hc, hput⟩ := t.put_cases k e
  · rw [hput] at h
    exact absurd h (by simp)
  · rw [hput, List.mem_singleton] at h
    obtain ⟨rfl, rfl⟩ := Prod.mk.inj h
    exact hc

theorem stored_of_resize_evicted {capacity : Capacity} (h : (j, d) ∈ (t.resize capacity).evicted) :
    t.store.get? j = some d := by
  have hsplit := t.contents_resize capacity
  rw [← mem_contents_iff, ← hsplit]
  exact Multiset.mem_add.2 (.inl h)

end Tier

namespace Hierarchy

variable {K V : Type}

theorem mem_sentFrom {l m : Level} {k : K} {e : Entry V} {evicted : List (K × Entry V)} :
    (m, k, e) ∈ sentFrom l evicted ↔ m = l ∧ (k, e) ∈ evicted := by
  rw [sentFrom, List.mem_map]
  constructor
  · rintro ⟨p, hp, heq⟩
    obtain ⟨rfl, rfl⟩ := Prod.mk.inj heq
    exact ⟨rfl, hp⟩
  · rintro ⟨rfl, hp⟩
    exact ⟨(k, e), hp, rfl⟩

variable [DecidableEq K]

/-- Every stored entry, and every entry in flight in the tier that it has left, has a property. -/
structure Everywhere (ttl : Level → Nat) (Q : Level → K → Entry V → Prop) (h : Hierarchy K V)
    (flight : List (Level × K × Entry V)) : Prop where
  ttl : ∀ l, (h.tier l).ttl = ttl l
  stored : ∀ l k e, (h.tier l).store.get? k = some e → Q l k e
  inFlight : ∀ l k e, (l, k, e) ∈ flight → Q l k e

namespace Everywhere

variable {ttl : Level → Nat} {Q : Level → K → Entry V → Prop} {h h' : Hierarchy K V}
  {flight flight' : List (Level × K × Entry V)}

theorem of_within (hh : Everywhere ttl Q h flight)
    (hwithin : ∀ l, (h'.tier l).Within (h.tier l)) (hflight : ∀ p ∈ flight', p ∈ flight) :
    Everywhere ttl Q h' flight' where
  ttl l := by rw [(hwithin l).ttl, hh.ttl]
  stored l k e he := hh.stored l k e ((hwithin l).stored k e he)
  inFlight l k e he := hh.inFlight l k e (hflight _ he)

/-- One entry is written, nothing else is new, and the displaced entries are in flight. -/
theorem of_put (hh : Everywhere ttl Q h flight) {l : Level} {k : K} {e : Entry V} (he : Q l k e)
    (hself : h'.tier l = ((h.tier l).put k e).tier)
    (hothers : ∀ m, m ≠ l → (h'.tier m).Within (h.tier m)) :
    Everywhere ttl Q h' (sentFrom l ((h.tier l).put k e).evicted ++ flight) where
  ttl m := by
    by_cases hm : m = l
    · rw [hm, hself, (Tier.put_alike _ k e).ttl, hh.ttl]
    · rw [(hothers m hm).ttl, hh.ttl]
  stored m j d hd := by
    by_cases hm : m = l
    · subst hm
      rw [hself] at hd
      by_cases hj : j = k
      · subst hj
        rw [Tier.get?_put_self] at hd
        exact Option.some.inj hd ▸ he
      · exact hh.stored m j d (Tier.stored_of_put hj hd)
    · exact hh.stored m j d ((hothers m hm).stored j d hd)
  inFlight m j d hd := by
    rcases List.mem_append.1 hd with hd | hd
    · obtain ⟨rfl, hd⟩ := mem_sentFrom.1 hd
      exact hh.stored m j d (Tier.stored_of_put_evicted hd)
    · exact hh.inFlight m j d hd

theorem of_put_only (hh : Everywhere ttl Q h []) {l : Level} {k : K} {e : Entry V} (he : Q l k e)
    (hself : h'.tier l = ((h.tier l).put k e).tier)
    (hothers : ∀ m, m ≠ l → (h'.tier m).Within (h.tier m)) :
    Everywhere ttl Q h' (sentFrom l ((h.tier l).put k e).evicted) := by
  have hput := hh.of_put he hself hothers
  rwa [List.append_nil] at hput

theorem placed (hh : Everywhere ttl Q h []) {l : Level} {k : K} {e : Entry V} (he : Q l k e)
    (htier : ∀ m, h'.tier m = (h.placed l k e).tier m) :
    Everywhere ttl Q h' (sentFrom l ((h.tier l).put k e).evicted) := by
  apply hh.of_put_only he
  · rw [htier, tier_placed, if_pos rfl]
  · intro m hm
    rw [htier, tier_placed, if_neg hm]
    exact (h.tier m).remove_within k

theorem landed (hh : Everywhere ttl Q h flight) {l : Level} {k : K} {e : Entry V}
    (he : Q l k e) :
    Everywhere ttl Q (h.landed l k e) (sentFrom l ((h.tier l).put k e).evicted ++ flight) := by
  apply hh.of_put he
  · rw [tier_landed, if_pos rfl]
  · intro m hm
    rw [tier_landed, if_neg hm]
    exact .refl _

theorem resized (hh : Everywhere ttl Q h []) (l : Level) (capacity : Capacity) :
    Everywhere ttl Q (h.takeOver l ((h.tier l).resize capacity))
      (sentFrom l ((h.tier l).resize capacity).evicted) := by
  have hwithin : ∀ m, ((h.takeOver l ((h.tier l).resize capacity)).tier m).Within (h.tier m) := by
    intro m
    rw [tier_takeOver]
    split
    · rename_i hm
      exact hm ▸ (h.tier m).resize_within capacity
    · exact .refl _
  refine ⟨(hh.of_within hwithin fun _ hp => hp).ttl, ?_, ?_⟩
  · exact (hh.of_within hwithin fun _ hp => hp).stored
  · intro m k e he
    obtain ⟨rfl, he⟩ := mem_sentFrom.1 he
    exact hh.stored m k e (Tier.stored_of_resize_evicted he)

end Everywhere

/-- A property of entries in their tiers that moves keep. -/
structure Travels (ttl : Level → Nat) (now : Int) (Q : Level → K → Entry V → Prop) : Prop where
  falls : ∀ l next k e, l.colder = some next → e.expired (ttl next) now = false → Q l k e →
    Q next k e
  rises : ∀ l target k e, e.expired (ttl l) now = false → e.expired (ttl target) now = false →
    Q l k e → Q target k e

theorem everywhere_traced {ttl : Level → Nat} {now : Int} {Q : Level → K → Entry V → Prop}
    (hQ : Travels ttl now Q) : Traced now (Everywhere ttl Q) where
  missed h hh := ⟨hh.ttl, hh.stored, hh.inFlight⟩
  lookedUp h l k hh :=
    hh.of_within (h.within_setTier ((h.tier l).lookup_within k now)) fun _ hp => hp
  served h l k hh := hh.of_within (h.within_setTier ((h.tier l).touch_within k)) fun _ hp => hp
  raised h source target k e hfind hage hh := by
    obtain ⟨hstored, hlive⟩ := Option.filter_eq_some_iff.1 hfind
    rw [Bool.not_eq_true', hh.ttl] at hlive
    rw [hh.ttl] at hage
    exact hh.placed (hQ.rises source target k e hlive hage (hh.stored source k e hstored))
      fun _ => rfl
  resized h l capacity hh := hh.resized l capacity
  purged h hh := by
    apply hh.of_within _ fun _ hp => hp
    intro l
    rw [tier_purgeExpired]
    exact (h.tier l).purge_within now
  pruned h staleness hh := ⟨hh.ttl, hh.stored, hh.inFlight⟩
  gone h l k e rest _ hh := ⟨hh.ttl, hh.stored, fun m j d hd =>
    hh.inFlight m j d (List.mem_cons_of_mem _ hd)⟩
  superseded h l k e rest _ hh := ⟨hh.ttl, hh.stored, fun m j d hd =>
    hh.inFlight m j d (List.mem_cons_of_mem _ hd)⟩
  lands h l next k e rest hnext hage _ hh := by
    rw [hh.ttl] at hage
    have hrest : Everywhere ttl Q h rest :=
      hh.of_within (fun _ => .refl _) fun _ hp => List.mem_cons_of_mem _ hp
    exact hrest.landed (hQ.falls l next k e hnext hage (hh.inFlight l k e List.mem_cons_self))

theorem everywhere_tracedWrites {ttl : Level → Nat} {now : Int} {allowed : K → V → Prop}
    {Q : Level → K → Entry V → Prop} (hQ : Travels ttl now Q)
    (hwritten : ∀ l k v, allowed k v → Q l k ⟨v, now⟩) :
    TracedWrites now allowed (Everywhere ttl Q) where
  toTraced := everywhere_traced hQ
  written h l k v hv hh := by
    apply hh.placed (hwritten l k v hv)
    intro m
    rw [tier_placed, tier_placed]
    rfl
  loaded h k v hv _ hh := by
    apply hh.of_put_only (hwritten .cold k v hv)
    · rw [tier_loaded, if_pos rfl]
    · intro m hm
      rw [tier_loaded, if_neg hm]
      exact .refl _
  removed h k hh := by
    apply hh.of_within _ fun _ hp => hp
    intro l
    rw [tier_remove]
    exact (h.tier l).remove_within k
  cleared h hh := by
    apply hh.of_within _ fun _ hp => hp
    intro l
    rw [tier_clear]
    exact (h.tier l).clear_within

end Hierarchy

namespace Session

variable {K V : Type} [DecidableEq K]

/-- What moves and the passing of time keep, and what holds of every entry that is written, holds
of all entries after a run. -/
theorem everywhere_run (ttl : Level → Nat) (allowed : K → V → Prop)
    (Q : Int → Level → K → Entry V → Prop) (hQ : ∀ now, Hierarchy.Travels ttl now (Q now))
    (hlater : ∀ now time l k e, Q now l k e → Q (now + (time : Nat)) l k e)
    (hwritten : ∀ now l k v, allowed k v → Q now l k ⟨v, now⟩) (s : Session K V)
    (ops : List (Operation K V)) (hops : ∀ op ∈ ops, ∀ k v, op.Writes k v → allowed k v)
    (hs : ∀ l k e, (s.hierarchy.tier l).store.get? k = some e → Q s.now l k e)
    (httl : ∀ l, (s.hierarchy.tier l).ttl = ttl l) :
    Hierarchy.Everywhere ttl (Q (s.run ops).2.now) (s.run ops).2.hierarchy [] := by
  apply run_traced (P := fun now => Hierarchy.Everywhere ttl (Q now))
  · exact fun now => Hierarchy.everywhere_tracedWrites (hQ now) (hwritten now)
  · intro now time h hh
    exact ⟨hh.ttl, fun l k e he => hlater now time l k e (hh.stored l k e he),
      fun l k e he => hlater now time l k e (hh.inFlight l k e he)⟩
  · exact hops
  · exact ⟨httl, hs, fun l k e he => absurd he (by simp)⟩

theorem ttl_run (s : Session K V) (ops : List (Operation K V)) (l : Level) :
    ((s.run ops).2.hierarchy.tier l).ttl = (s.hierarchy.tier l).ttl := by
  have hall := everywhere_run (fun l => (s.hierarchy.tier l).ttl) (fun _ _ => True)
    (fun _ _ _ _ => True)
    (fun _ => ⟨fun _ _ _ _ _ _ _ => trivial, fun _ _ _ _ _ _ _ => trivial⟩)
    (fun _ _ _ _ _ _ => trivial) (fun _ _ _ _ _ => trivial) s ops
    (fun _ _ _ _ _ => trivial) (fun _ _ _ _ => trivial) fun _ => rfl
  exact hall.ttl l

theorem now_le_run (s : Session K V) (ops : List (Operation K V)) : s.now ≤ (s.run ops).2.now := by
  induction ops generalizing s with
  | nil => exact Int.le_refl _
  | cons op rest ih =>
    have hstep : s.now ≤ (s.step op).2.now := by
      cases op with
      | advance time => exact Int.le_add_of_nonneg_right (Int.natCast_nonneg time)
      | _ => exact Int.le_refl _
    exact hstep.trans (ih _)

end Session

end TieredCache
