import ScriptStore.Proofs.Keyspace.Addition
import ScriptStore.Proofs.Keyspace.Arguments

/-!
# What a request does to a key

Most requests are about one key. At one instant such a request is a function of the live entry of
its key, which says what the reply is and what is live under the key afterwards; no other key and
no expired entry plays a part.

* `Request.key?` — the key of a request that is about one.
* `Request.effect` — the reply of such a request, and the entry that it leaves. It knows deadlines
  only as data.
* `Request.WellFormed` — what `Request.ofCall` grants of the requests that it makes
  (`Request.wellFormed_of_ofCall`).
* `Request.run_effect` — **a request about one key does what its effect says**.
-/

namespace ScriptStore

open Keyspace

variable {now : Moment} {s t : Keyspace} {key name : String} {args : List String} {e : Entry}
  {r : Request}

/-! ## Effects -/

namespace Request

/-- The key of a request that is about one key. -/
def key? : Request → Option String
  | .get key | .set key _ _ | .increase key _ | .expire key _ | .persist key | .remaining key _
  | .setAdd key _ | .setSize key | .setMembers key | .sortedAdd key _ | .sortedSize key => some key
  | .del [key] | .exist [key] => some key
  | _ => none

/-- A removal that is about one key is of that key alone. -/
theorem eq_singleton_of_key?_del {keys : List String} (h : (del keys).key? = some key) :
    keys = [key] := by
  cases keys with
  | nil => cases h
  | cons first rest =>
    cases rest with
    | nil => cases h; rfl
    | cons => cases h

/-- A question about one key counts that key alone. -/
theorem eq_singleton_of_key?_exist {keys : List String} (h : (exist keys).key? = some key) :
    keys = [key] := by
  cases keys with
  | nil => cases h
  | cons first rest =>
    cases rest with
    | nil => cases h; rfl
    | cons => cases h

/-- The time that an entry has left in a unit, -1 for one that does not expire and -2 for none. -/
def timeLeft (now : Moment) (unit : TimeUnit) : Option Entry → Int
  | none => -2
  | some ⟨_, none⟩ => -1
  | some ⟨_, some deadline⟩ => inUnit (Int64.ofNat ((deadline - now.nanos) / 1000000)).toInt unit

/-- What a request makes of the entry of its key: the reply, and the entry afterwards. A request
that is not about one key leaves it alone. -/
def effect (now : Moment) (r : Request) (found : Option Entry) :
    Except Error Value × Option Entry :=
  match r with
  | .get _ => (Data.stringReply (found.map Entry.data), found)
  | .setSize _ => (Data.setSizeReply (found.map Entry.data), found)
  | .setMembers _ => (Data.membersReply (found.map Entry.data), found)
  | .sortedSize _ => (Data.sortedSizeReply (found.map Entry.data), found)
  | .exist _ => (.ok (.count found.isSome.toNat), found)
  | .del _ => (.ok (.count found.isSome.toNat), none)
  | .set _ value none => (.ok .ok, some (.lasting (.string value)))
  | .set _ value (some span) =>
    match span.deadline? now with
    | none => (.error (.command (.invalidExpiry "set")), found)
    | some deadline => (.ok .ok, some ⟨.string value, some deadline⟩)
  | .increase _ delta =>
    match counter found with
    | .error e => (.error e, found)
    | .ok current =>
      match int64OfInt? (current.toInt + delta.toInt) with
      | none => (.error (.command .overflow), found)
      | some sum => (.ok (.integer sum), some ⟨.string (int64Text sum), found.bind Entry.deadline⟩)
  | .expire _ span =>
    if span.amount ≤ 0 then (.ok (.count found.isSome.toNat), none)
    else
      match span.deadline? now with
      | none => (.error (.command (.invalidExpiry (expireName span.unit))), found)
      | some deadline =>
        (.ok (.count found.isSome.toNat), found.map fun e => { e with deadline := some deadline })
  | .persist _ =>
    (.ok (.count (found.bind Entry.deadline).isSome.toNat),
      found.map fun e => .lasting e.data)
  | .remaining _ unit => (.ok (.integer (Int64.ofInt (timeLeft now unit found))), found)
  | .setAdd _ members =>
    match found.getD (.lasting (.set ∅)) with
    | ⟨.set old, deadline⟩ =>
      let new := old.insertMany members
      (.ok (.count (new.size - old.size)), some ⟨.set new, deadline⟩)
    | _ => (.error .wrongType, found)
  | .sortedAdd _ pairs =>
    match found.getD (.lasting (.sortedSet ∅)) with
    | ⟨.sortedSet old, deadline⟩ =>
      let new := old.insertMany (pairs.map fun pair => (pair.2, pair.1))
      (.ok (.count (new.size - old.size)), some ⟨.sortedSet new, deadline⟩)
    | _ => (.error .wrongType, found)
  | _ => (.ok .nil, found)

end Request

/-- What an addition makes of the entry of its key. -/
def Addition.effect (a : Addition) (found : Option Entry) : Except Error Value × Option Entry :=
  let e := found.getD (.lasting a.fresh)
  match a.add e.data with
  | none => (.error .wrongType, found)
  | some (n, data) => (.ok (.count n), some { e with data })

theorem Request.effect_setAdd (now : Moment) (key : String) (members : List String)
    (found : Option Entry) :
    (Request.setAdd key members).effect now found = (Addition.members members).effect found := by
  rcases found with _ | ⟨data, deadline⟩
  · rfl
  · cases data <;> rfl

theorem Request.effect_sortedAdd (now : Moment) (key : String) (pairs : List (Float × String))
    (found : Option Entry) :
    (Request.sortedAdd key pairs).effect now found = (Addition.scores pairs).effect found := by
  rcases found with _ | ⟨data, deadline⟩
  · rfl
  · cases data <;> rfl

/-! ## Requests that arguments make -/

namespace Request

/-- A request as arguments make it: a time to live is positive. -/
def WellFormed : Request → Prop
  | .set _ _ (some span) => 0 < span.amount
  | _ => True

theorem amount_pos_of_expiryOptions {options : List String} {span : Span}
    (h : expiryOptions options = .ok (some span)) : 0 < span.amount := by
  unfold expiryOptions at h
  split at h
  · cases h
  · rename_i unit amount
    obtain ⟨n, -, h⟩ := exists_of_bind_eq_ok h
    by_cases hn : n ≤ 0
    · rw [if_pos hn] at h; cases h
    · rw [if_neg hn] at h
      have hpos : 0 < n := Int64.not_le.mp hn
      split at h
      · cases h; exact hpos
      · split at h
        · cases h; exact hpos
        · cases h
  · cases h

theorem wellFormed_of_ofCall (h : ofCall name args = .ok r) : r.WellFormed := by
  obtain ⟨command, -, asks⟩ := ofCall_eq_ok_iff.mp h
  cases asks with
  | @set key value options expiry hoptions =>
    cases expiry with
    | none => trivial
    | some span => exact amount_pos_of_expiryOptions hoptions
  | _ => trivial

end Request

/-! ## Outcomes of effects -/

/-- An outcome is what an effect on one key says: its reply is the one of the effect, its entry is
what the moment then shows under the key, and all else is as it was. -/
structure Applies (now : Moment) (s : Keyspace) (key : String)
    (effect : Except Error Value × Option Entry) (outcome : Outcome) : Prop where
  reply : outcome.1 = effect.1
  live? : ∀ other, outcome.2.live? now other =
    if other = key then effect.2 else s.live? now other
  clientName : outcome.2.clientName = s.clientName

namespace Applies

variable {reply : Except Error Value} {found : Option Entry}

/-- A reply that leaves the key alone. -/
theorem unchanged (h : Sheds now s t) (hf : s.live? now key = found) :
    Applies now s key (reply, found) (reply, t) := by
  refine ⟨rfl, fun other => ?_, h.clientName⟩
  rw [h.live?_eq, ← hf]
  split
  · rename_i heq
    rw [heq]
  · rfl

/-- A reply after which the key is bound to another entry. -/
theorem bound (h : Sheds now s t) (live : e.expired now = false) :
    Applies now s key (reply, some e) (reply, t.insert key e) := by
  refine ⟨rfl, fun other => ?_, h.clientName⟩
  rw [live?_insert live, h.live?_eq]

/-- Binding the key twice is as good as binding it once. -/
theorem rebound {first : Entry} (h : Sheds now s t) (live : e.expired now = false) :
    Applies now s key (reply, some e) (reply, (t.insert key first).insert key e) := by
  have hb : Applies now s key (reply, some e) (reply, t.insert key e) := bound h live
  refine ⟨rfl, fun other => ?_, hb.clientName⟩
  rw [← hb.live? other]
  refine live?_congr ?_
  simp only [entries_insert]
  split <;> rfl

/-- A reply after which the key is gone. -/
theorem removed : Applies now s key (reply, none) (reply, (s.remove now key).2) :=
  ⟨rfl, live?_remove s now key, clientName_remove s now key⟩

end Applies

/-! ## Requests about one key -/

/-- A deadline that is a positive span away has not been reached. -/
theorem Span.lt_of_deadline? {span : Span} {deadline : Nat} (pos : 0 < span.amount)
    (h : span.deadline? now = some deadline) : now.nanos < deadline := by
  unfold Span.deadline? at h
  split at h
  · cases h
    have hpos : 0 < span.amount.toInt := by simpa using Int64.lt_iff_toInt_lt.mp pos
    have hm : 0 < span.inMillis := by
      unfold Span.inMillis TimeUnit.inMillis
      split <;> omega
    omega
  · cases h

namespace Keyspace

variable (now s key)

theorem read_applies (reply : Option Data → Except Error Value) :
    Applies now s key (reply ((s.live? now key).map Entry.data), s.live? now key)
      (s.read (.frozen now) key reply) := by
  simp only [read, Readings.frozen, lookup_fst]
  exact .unchanged (sheds_lookup s now key) rfl

theorem setString_applies (value : String) (expiry : Option Span)
    (wf : (Request.set key value expiry).WellFormed) :
    Applies now s key ((Request.set key value expiry).effect now (s.live? now key))
      (s.setString (.frozen now) key value expiry) := by
  cases expiry with
  | none => exact .bound (.refl now s) rfl
  | some span =>
    simp only [Request.effect, setString, Readings.frozen]
    cases hd : span.deadline? now with
    | none => exact .unchanged (.refl now s) rfl
    | some deadline =>
      have hlt := Span.lt_of_deadline? wf hd
      exact .bound (.refl now s) (by simpa [Entry.expired] using hlt)

theorem increase_applies (delta : Int64) :
    Applies now s key ((Request.increase key delta).effect now (s.live? now key))
      (s.increase (.frozen now) key delta) := by
  have hs := sheds_lookup s now key
  simp only [Request.effect, increase, Readings.frozen, lookup_fst]
  cases counter (s.live? now key) with
  | error fault => exact .unchanged hs rfl
  | ok current =>
    simp only
    cases int64OfInt? (current.toInt + delta.toInt) with
    | none => exact .unchanged hs rfl
    | some sum =>
      have hl := hs.live?_eq key
      cases hf : s.live? now key with
      | none =>
        rw [hf] at hl
        rw [lookup_eq_of_live?_none hl]
        exact .bound (hs.trans (sheds_lookup _ now key)) rfl
      | some e =>
        rw [hf] at hl
        simp only [lookup_eq_of_live? hl]
        exact .bound hs (expired_of_live? hf :)

theorem expire_applies (span : Span) :
    Applies now s key ((Request.expire key span).effect now (s.live? now key))
      (s.expire (.frozen now) key span) := by
  simp only [Request.effect, expire, Readings.frozen]
  by_cases hpos : span.amount ≤ 0
  · simp only [if_pos hpos, remove_fst]
    exact .removed
  · simp only [if_neg hpos]
    cases hd : span.deadline? now with
    | none => exact .unchanged (.refl now s) rfl
    | some deadline =>
      have hlt := Span.lt_of_deadline? (Int64.not_le.mp hpos) hd
      cases hf : s.live? now key with
      | none =>
        rw [lookup_eq_of_live?_none hf]
        exact .unchanged (sheds_lookup s now key) hf
      | some e =>
        simp only [lookup_eq_of_live? hf]
        exact .bound (.refl now s) (by simpa [Entry.expired] using hlt)

theorem persist_applies :
    Applies now s key ((Request.persist key).effect now (s.live? now key))
      (s.persist (.frozen now) key) := by
  simp only [Request.effect, persist, Readings.frozen]
  cases hf : s.live? now key with
  | none =>
    rw [lookup_eq_of_live?_none hf]
    exact .unchanged (sheds_lookup s now key) hf
  | some e =>
    simp only [lookup_eq_of_live? hf]
    obtain ⟨data, deadline⟩ := e
    cases deadline with
    | none => exact .unchanged (.refl now s) hf
    | some deadline => exact .bound (.refl now s) rfl

theorem remaining_applies (unit : TimeUnit) :
    Applies now s key ((Request.remaining key unit).effect now (s.live? now key))
      (s.remaining (.frozen now) key unit) := by
  simp only [Request.effect, remaining, Readings.frozen]
  cases hf : s.live? now key with
  | none =>
    rw [lookup_eq_of_live?_none hf]
    exact .unchanged (sheds_lookup s now key) hf
  | some e =>
    simp only [lookup_eq_of_live? hf]
    obtain ⟨data, deadline⟩ := e
    cases deadline <;> exact .unchanged (.refl now s) hf

theorem grow_applies (a : Addition) :
    Applies now s key (a.effect (s.live? now key)) (s.grow (.frozen now) key a) := by
  have hs := sheds_lookup s now key
  simp only [Addition.effect, grow, Readings.frozen]
  cases hf : s.live? now key with
  | none =>
    obtain ⟨⟨n, data⟩, hadd⟩ := Option.isSome_iff_exists.mp a.add_fresh
    rw [ensure_of_live?_none hf, lookup_eq_of_live? (live?_insert_self ..)]
    simp only [Option.getD_none, Entry.lasting, hadd]
    exact .rebound hs rfl
  | some e =>
    simp only [ensure_of_live? hf, lookup_eq_of_live? hf, Option.getD_some]
    cases a.add e.data with
    | none => exact .unchanged (.refl now s) hf
    | some grown => exact .bound (.refl now s) (expired_of_live? hf :)

end Keyspace

/-- **A request about one key does what its effect says.** -/
theorem Request.run_effect (wf : r.WellFormed) (about : r.key? = some key) (now : Moment)
    (s : Keyspace) :
    Applies now s key (r.effect now (s.live? now key)) (r.run (.frozen now) s) := by
  cases r with
  | get key' => cases about; exact read_applies now s key Data.stringReply
  | set key' value expiry => cases about; exact setString_applies now s key value expiry wf
  | increase key' delta => cases about; exact increase_applies now s key delta
  | expire key' span => cases about; exact expire_applies now s key span
  | persist key' => cases about; exact persist_applies now s key
  | remaining key' unit => cases about; exact remaining_applies now s key unit
  | setAdd key' members =>
    cases about
    simp only [run, effect_setAdd, setAdd_eq_grow]
    exact grow_applies now s key (.members members)
  | setSize key' => cases about; exact read_applies now s key Data.setSizeReply
  | setMembers key' => cases about; exact read_applies now s key Data.membersReply
  | sortedAdd key' pairs =>
    cases about
    simp only [run, effect_sortedAdd, sortedAdd_eq_grow]
    exact grow_applies now s key (.scores pairs)
  | sortedSize key' => cases about; exact read_applies now s key Data.sortedSizeReply
  | del keys =>
    obtain rfl := eq_singleton_of_key?_del about
    simp only [run, removeAll, effect, Readings.frozen, remove_fst, Nat.add_zero]
    exact .removed
  | exist keys =>
    obtain rfl := eq_singleton_of_key?_exist about
    simp only [run, countLive, effect, Readings.frozen, lookup_fst, Nat.add_zero]
    exact .unchanged (sheds_lookup s now key) rfl
  | _ => cases about

end ScriptStore
