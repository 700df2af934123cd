import TieredCache.Proofs.ExactSweeps
import TieredCache.Proofs.RecencyList

/-!
# Expiry without a sweep

An expired entry is dropped by a lookup of its key as well as by a sweep. Both take it out of store
and order and count it, and neither announces it. So once all keys have been looked up, nothing is
left for a sweep to do, and nothing shows that there has been none. All that is asked of the tier is
that its order lists no key twice: a lookup takes a key out of it once, and a sweep altogether.
-/

namespace TieredCache.Tier

variable {K V : Type} [DecidableEq K]

/-- Answers some requests. Returns the keys announced meanwhile, and the tier afterwards. -/
def answerAll (t : Tier K V) (now : Int) : List (Request K V) → List K × Tier K V
  | [] => ([], t)
  | request :: rest =>
    let (_, announced, t) := t.answer now request
    let (others, t) := t.answerAll (request.next now) rest
    (announced ++ others, t)

/-- A lookup does to the tier what a sweep does about the same key. -/
theorem answer_get (t : Tier K V) (k : K) (now : Int) :
    t.answer now (.get k) = (.found (t.lookup k now).1, [], (t.expire now k).2) := by
  rw [← lookup_snd_eq_expire]
  rfl

theorem answerAll_map_get (t : Tier K V) (keys : List K) (now : Int) :
    t.answerAll now (keys.map .get) = ([], (removeEach (expire now) keys t).2) := by
  induction keys generalizing t with
  | nil => rfl
  | cons k keys ih =>
    have hrest := ih (t.expire now k).2
    rw [List.map_cons, answerAll, answer_get]
    simp only [Request.next, hrest, List.nil_append]
    rfl

/-- A tier without the expired entries of another one, each of which is counted. -/
structure Swept (t t' : Tier K V) (now : Int) : Prop where
  stored : ∀ k e, t'.store.get? k = some e ↔ t.store.get? k = some e ∧ e.age now ≤ t.ttl
  order : t'.recency = t.recency.filter fun k => !t.isExpired now k
  expirations : t'.expirations =
    t.expirations + t.store.count fun _ e => e.expired t.ttl now
  others : t' = { t with
    store := t'.store
    recency := t'.recency
    expirations := t'.expirations }

theorem swept_purge (t : Tier K V) (now : Int) : t.Swept (t.purge now).2 now where
  stored k e := t.get?_purge_eq_some_iff k e now
  order := rfl
  expirations := rfl
  others := rfl

/-- Lookups of all stored keys at one instant, in any order and with any repetitions, leave the tier
that a sweep at this instant leaves, in whatever order the store lists its keys. Both drop the
entries older than the time to live, and no others, and announce nothing. A sweep returns how much
it adds to the count. -/
theorem lookups_expire_as_sweep (t : Tier K V) (hnodup : t.recency.Nodup) (now : Int)
    (listed asked : List K) (hlisted : listed.Perm t.store.keys)
    (hasked : ∀ k ∈ t.store.keys, k ∈ asked) :
    let swept := t.purgeAlong listed now
    let looked := t.answerAll now (asked.map .get)
    looked.2 = swept.2 ∧ t.Swept swept.2 now ∧
      swept.2.expirations = t.expirations + swept.1 ∧
      looked.1 = [] ∧ ∀ clock, t.answer clock (.purge now) = (.count swept.1, [], swept.2) := by
  intro swept looked
  have hswept : swept = t.purge now := purgeAlong_eq hnodup hlisted now
  have hdue : ∀ k, t.isExpired now k → k ∈ asked := fun k hk =>
    hasked k (Store.mem_keys_of_any (p := fun _ (e : Entry V) => e.expired t.ttl now) k hk)
  have hlooked : looked = ([], (t.purge now).2) := by
    rw [← (purge_stepwise now).removeEach_eq hnodup hdue]
    exact t.answerAll_map_get asked now
  rw [hlooked, hswept]
  exact ⟨rfl, t.swept_purge now, rfl, rfl, fun _ => rfl⟩

/-- Two entries have expired, and one is as old as it may be. -/
theorem lookups_expire_as_sweep_of_three :
    let t : Tier Nat Nat := ⟨.hot, ⟨3, by decide⟩, 10,
      ((Store.empty.insert 1 ⟨10, 0⟩).insert 2 ⟨20, 1⟩).insert 3 ⟨30, -5⟩, [3, 2, 1], 4⟩
    let swept := t.purgeAlong [1, 2, 3] 11
    let looked := t.answerAll 11 ([3, 2, 3, 1, 2].map .get)
    t.recency.Nodup ∧ [1, 2, 3].Perm t.store.keys ∧ (∀ k ∈ t.store.keys, k ∈ [3, 2, 3, 1, 2]) ∧
      looked.2 = swept.2 ∧ t.Swept swept.2 11 ∧ swept.2.expirations = t.expirations + swept.1 ∧
      looked.1 = [] ∧ (∀ clock, t.answer clock (.purge 11) = (.count swept.1, [], swept.2)) ∧
      swept.1 = 2 ∧ swept.2.recency = [2] := by
  intro t swept looked
  have hnodup : t.recency.Nodup := by decide
  have hlisted : [1, 2, 3].Perm t.store.keys := by decide
  have hasked : ∀ k ∈ t.store.keys, k ∈ [3, 2, 3, 1, 2] := by decide
  obtain ⟨hsame, hexact, hcount, hsilent, hreply⟩ :=
    lookups_expire_as_sweep t hnodup 11 [1, 2, 3] [3, 2, 3, 1, 2] hlisted hasked
  exact ⟨hnodup, hlisted, hasked, hsame, hexact, hcount, hsilent, hreply, by decide, by decide⟩

end TieredCache.Tier
