import Mathlib
import ScriptStore.Proofs.Keyspace.Effect
import ScriptStore.Proofs.Keyspace.Readings
import ScriptStore.Proofs.Number.Integer

/-!
# Commands about one key and the instant at which they act

A command may look at the clocks more than once, and the deadline of its key may fall between two of
these readings. Most commands still act as if the clocks had stood still. Those that look their key
up twice and write after the second lookup do not always.

* `AtOneInstant` — a command does what it would do with the clocks stopped at one of its readings.
* `Lapses`, `Request.Torn` — the deadline of a key falls between the first two readings, and the
  request is one that this tears apart: an increment of a counter other than 0, or an addition to a
  set or a sorted set.
* `single_key_command_at_one_instant_iff` — **a command about one key acts at one instant exactly
  if it is not torn**.
* `sadd_not_at_one_instant` — a torn command.
-/

namespace ScriptStore

open Keyspace

variable {clock : Readings} {now past : Moment} {s : Keyspace} {key name : String}
  {args : List String} {e : Entry} {r : Request}

/-! ## One instant -/

/-- The moment of a reading. The calendar is read once, at the first one. -/
def Readings.instant (clock : Readings) (i : Nat) : Moment :=
  ⟨(clock i).nanos, (clock 0).unixMillis⟩

/-- Two outcomes are the same to whoever looks at a moment. -/
structure SameAt (now : Moment) (a b : Outcome) : Prop where
  reply : a.1 = b.1
  live? : ∀ key, a.2.live? now key = b.2.live? now key
  clientName : a.2.clientName = b.2.clientName

theorem SameAt.of_eq {a b : Outcome} (h : a = b) : SameAt now a b := by
  subst h
  exact ⟨rfl, fun _ => rfl, rfl⟩

theorem SameAt.of_sheds {t : Keyspace} (reply : Except Error Value) (h : Sheds now s t) :
    SameAt now (reply, t) (reply, s) :=
  ⟨rfl, h.live?_eq, h.clientName⟩

/-- A command does what it would do if the clocks had stood still at one of its readings: it has the
same reply, and its last reading shows the same keyspace. One that takes no reading may be held
against the first. -/
def AtOneInstant (clock : Readings) (s : Keyspace) (name : String) (args : List String) : Prop :=
  ∃ i, (i = 0 ∨ i < s.readings clock name args) ∧
    SameAt (clock (s.readings clock name args - 1)) (s.dispatch clock name args)
      (s.dispatch (.frozen (clock.instant i)) name args)

/-! ## Deadlines between two readings -/

/-- The deadline of a key falls between the first two readings. -/
def Lapses (clock : Readings) (s : Keyspace) (key : String) (e : Entry) : Prop :=
  s.entries[key]? = some e ∧ e.expired (clock 0) = false ∧ e.expired (clock 1) = true

/-- A request that a deadline between its two lookups tears apart: it adds to a counter other than
0, or to a set or a sorted set, and would not fail. -/
def Request.Torn (clock : Readings) (s : Keyspace) : Request → Prop
  | .increase key delta => ∃ e n, Lapses clock s key e ∧ counter (some e) = .ok n ∧ n ≠ 0 ∧
      (int64OfInt? (n.toInt + delta.toInt)).isSome
  | .setAdd key _ => ∃ members deadline, Lapses clock s key ⟨.set members, deadline⟩
  | .sortedAdd key _ => ∃ scores deadline, Lapses clock s key ⟨.sortedSet scores, deadline⟩
  | _ => False

namespace Lapses

theorem live?_first (h : Lapses clock s key e) : s.live? (clock 0) key = some e :=
  live?_eq_some_iff.mpr ⟨h.1, h.2.1⟩

theorem live?_second (h : Lapses clock s key e) : s.live? (clock 1) key = none := by
  rw [live?, h.1, Option.filter_some, h.2.2]
  rfl

end Lapses

theorem lookup_congr (h : ∀ e, s.entries[key]? = some e → e.expired past = e.expired now) :
    s.lookup past key = s.lookup now key := by
  unfold lookup
  split
  · rfl
  · rename_i e he
    rw [h e he]

/-- Where no deadline falls between the first two readings, the second lookup of a key finds what a
lookup at the first reading would find. -/
theorem lookup_second_eq (steady : (clock 0).nanos ≤ (clock 1).nanos)
    (h : ∀ e, ¬ Lapses clock s key e) :
    s.lookup (clock 1) key = s.lookup (clock 0) key := by
  refine lookup_congr fun e he => ?_
  cases h0 : e.expired (clock 0) with
  | true => exact Entry.expired_mono steady h0
  | false => exact Bool.eq_false_iff.mpr fun h1 => h e ⟨he, h0, h1⟩

theorem Lapses.of_lookup (h : Lapses clock (s.lookup (clock 0) key).2 key e) :
    Lapses clock s key e := by
  obtain ⟨he, hl⟩ := h
  rw [entries_lookup_self] at he
  exact ⟨(live?_eq_some_iff.mp he).1, hl⟩

theorem Lapses.of_ensure {data : Data}
    (h : Lapses clock (s.ensure (clock 0) key data) key e) : Lapses clock s key e := by
  rcases ensure_cases (clock 0) s key data with he | he
  · rwa [he] at h
  · have hgone := h.live?_second
    rw [he (clock 1)] at hgone
    cases hgone

/-- A request that takes one reading is a request at that reading. -/
theorem Request.run_eq_of_readings_le_one (h : r.readings clock s ≤ 1) :
    r.run clock s = r.run (.frozen (clock.instant 0)) s := by
  refine run_congr fun i hi => ?_
  have hi0 : i = 0 := by omega
  subst hi0
  rfl

/-- Where no deadline falls between the first two readings, a request acts at the first one. -/
theorem Request.run_eq_of_no_lapse (steady : (clock 0).nanos ≤ (clock 1).nanos)
    (about : r.key? = some key) (h : ∀ e, ¬ Lapses clock s key e) :
    r.run clock s = r.run (.frozen (clock.instant 0)) s := by
  have hinstant : clock.instant 0 = clock 0 := rfl
  have hlookup := lookup_second_eq steady h
  have hagain := lookup_second_eq steady fun e he => h e (.of_lookup he)
  have hensure (data : Data) := lookup_second_eq (s := s.ensure (clock 0) key data) steady
    fun e he => h e (.of_ensure he)
  cases r with
  | get | persist | setSize | setMembers | sortedSize =>
    exact run_eq_of_readings_le_one (Nat.le_refl 1)
  | set key' value expiry =>
    refine run_eq_of_readings_le_one ?_
    cases expiry <;> simp only [readings, Nat.le_refl, Nat.zero_le]
  | del keys =>
    obtain rfl := eq_singleton_of_key?_del about
    exact run_eq_of_readings_le_one (Nat.le_refl 1)
  | exist keys =>
    obtain rfl := eq_singleton_of_key?_exist about
    exact run_eq_of_readings_le_one (Nat.le_refl 1)
  | increase key' delta =>
    cases about
    simp only [run, Keyspace.increase, Readings.frozen, hinstant, hagain]
  | expire key' span =>
    cases about
    simp only [run, Keyspace.expire, Readings.frozen, hinstant, hlookup]
  | remaining key' unit =>
    cases about
    simp only [run, Keyspace.remaining, Readings.frozen, hinstant, hlookup]
  | setAdd key' members =>
    cases about
    simp only [run, Keyspace.setAdd, Readings.frozen, hinstant, hensure]
  | sortedAdd key' pairs =>
    cases about
    simp only [run, Keyspace.sortedAdd, Readings.frozen, hinstant, hensure]
  | _ => cases about

/-! ## A deadline between the two lookups -/

/-- Looking a key up again finds the same. -/
theorem lookup_lookup (s : Keyspace) (now : Moment) (key : String) :
    (s.lookup now key).2.lookup now key = s.lookup now key := by
  cases hl : s.live? now key with
  | some e => rw [lookup_eq_of_live? hl, lookup_eq_of_live? hl]
  | none =>
    have hgone := entries_lookup_self s now key
    rw [hl] at hgone
    rw [lookup, hgone, lookup_eq_of_live?_none hl]

namespace Lapses

theorem lookup_first (h : Lapses clock s key e) : s.lookup (clock 0) key = (some e, s) :=
  lookup_eq_of_live? h.live?_first

theorem lookup_second (h : Lapses clock s key e) :
    s.lookup (clock 1) key = (none, (s.lookup (clock 1) key).2) :=
  lookup_eq_of_live?_none h.live?_second

/-- The second reading alone decides what a lookup at its instant finds. -/
theorem lookup_instant (h : Lapses clock s key e) :
    s.lookup (clock.instant 1) key = (none, (s.lookup (clock 1) key).2) := by
  rw [← h.lookup_second]
  exact lookup_congr fun _ _ => Entry.expired_congr rfl

end Lapses

/-- Setting a deadline comes too late for a key that lapses. -/
theorem expire_eq_of_lapses (h : Lapses clock s key e) {span : Span} (pos : ¬ span.amount ≤ 0)
    {deadline : Nat} (hd : span.deadline? (clock 0) = some deadline) :
    s.expire clock key span = s.expire (.frozen (clock.instant 1)) key span := by
  have hd' : ∃ later, span.deadline? (clock.instant 1) = some later := by
    unfold Span.deadline? at hd ⊢
    split at hd
    · rename_i hfits
      exact ⟨_, if_pos hfits⟩
    · cases hd
  obtain ⟨later, hd'⟩ := hd'
  simp only [Keyspace.expire, if_neg pos, hd, Readings.frozen, hd', h.lookup_instant]
  rw [h.lookup_second]

theorem remaining_eq_of_lapses (h : Lapses clock s key e) (unit : TimeUnit) :
    s.remaining clock key unit = s.remaining (.frozen (clock.instant 1)) key unit := by
  simp only [Keyspace.remaining, Readings.frozen, h.lookup_instant]
  rw [h.lookup_second]

/-- A counter that lapses is replaced by one that does not expire, with the old number in the sum. -/
theorem increase_eq_of_lapses (h : Lapses clock s key e) {n sum delta : Int64}
    (hn : counter (some e) = .ok n) (hsum : int64OfInt? (n.toInt + delta.toInt) = some sum) :
    s.increase clock key delta =
      (.ok (.integer sum),
        (s.lookup (clock 1) key).2.insert key (.lasting (.string (int64Text sum)))) := by
  simp only [Keyspace.increase, h.lookup_first, hn, hsum]
  rw [h.lookup_second]

theorem increase_instant_of_lapses (h : Lapses clock s key e) {sum delta : Int64}
    (hsum : int64OfInt? ((0 : Int64).toInt + delta.toInt) = some sum) :
    s.increase (.frozen (clock.instant 1)) key delta =
      (.ok (.integer sum),
        (s.lookup (clock 1) key).2.insert key (.lasting (.string (int64Text sum)))) := by
  have hagain := lookup_lookup s (clock.instant 1) key
  rw [h.lookup_instant] at hagain
  simp only [Keyspace.increase, Readings.frozen, h.lookup_instant, counter, hsum, hagain]

/-- What is added to a container that lapses gets lost. -/
theorem grow_eq_of_lapses (h : Lapses clock s key e) (a : Addition) :
    s.grow clock key a = (.error .wrongType, (s.lookup (clock 1) key).2) := by
  rw [grow, ensure_of_live? h.live?_first, h.lookup_second]

/-- An addition to data of another type fails at the first reading, too. -/
theorem same_at_grow_of_lapses (h : Lapses clock s key e) {a : Addition}
    (other : a.add e.data = none) :
    SameAt (clock 1) (s.grow clock key a) (s.grow (.frozen (clock.instant 0)) key a) := by
  have hkept : s.grow (.frozen (clock 0)) key a = (.error .wrongType, s) := by
    simp only [grow, Readings.frozen, ensure_of_live? h.live?_first, h.lookup_first, other]
  have hfirst : clock.instant 0 = clock 0 := rfl
  rw [grow_eq_of_lapses h, hfirst, hkept]
  exact .of_sheds (.error .wrongType) (sheds_lookup s (clock 1) key)

/-! ## Commands that act at one instant -/

/-- A request that is not torn acts at one of its readings. -/
theorem Request.same_at_of_not_torn (steady : (clock 0).nanos ≤ (clock 1).nanos)
    (about : r.key? = some key) (whole : ¬ r.Torn clock s) :
    ∃ i, (i = 0 ∨ i < r.readings clock s) ∧ SameAt (clock (r.readings clock s - 1))
      (r.run clock s) (r.run (.frozen (clock.instant i)) s) := by
  by_cases hone : r.readings clock s ≤ 1
  · exact ⟨0, .inl rfl, .of_eq (run_eq_of_readings_le_one hone)⟩
  have hmany : 1 < r.readings clock s := by omega
  by_cases hlapse : ∃ e, Lapses clock s key e
  case neg =>
    exact ⟨0, .inl rfl, .of_eq (run_eq_of_no_lapse steady about (not_exists.mp hlapse))⟩
  obtain ⟨e, he⟩ := hlapse
  cases r with
  | get | persist | setSize | setMembers | sortedSize => exact absurd (Nat.le_refl 1) hone
  | set key' value expiry => cases expiry <;> simp [readings] at hone
  | del keys =>
    obtain rfl := eq_singleton_of_key?_del about
    exact absurd (Nat.le_refl 1) hone
  | exist keys =>
    obtain rfl := eq_singleton_of_key?_exist about
    exact absurd (Nat.le_refl 1) hone
  | remaining key' unit =>
    cases about
    exact ⟨1, .inr hmany, .of_eq (remaining_eq_of_lapses he unit)⟩
  | expire key' span =>
    cases about
    obtain ⟨hpos, deadline, hd⟩ := exists_deadline_of_readings hmany
    exact ⟨1, .inr hmany, .of_eq (expire_eq_of_lapses he hpos hd)⟩
  | increase key' delta =>
    cases about
    obtain ⟨n, sum, hn, hsum⟩ := exists_sum_of_readings hmany
    rw [he.live?_first] at hn
    -- a counter at 0 gives the sum of an absent one
    have hzero : n = 0 := Decidable.byContradiction fun hne =>
      whole ⟨e, n, he, hn, hne, by rw [hsum]; rfl⟩
    refine ⟨1, .inr hmany, .of_eq ?_⟩
    simp only [run]
    rw [increase_eq_of_lapses he hn hsum]
    rw [hzero] at hsum
    rw [increase_instant_of_lapses he hsum]
  | setAdd key' members =>
    cases about
    obtain ⟨data, deadline⟩ := e
    -- a set would be torn, and any other data is of the wrong type at the first reading already
    have other : (Addition.members members).add data = none := by
      cases data with
      | set old => exact absurd ⟨old, deadline, he⟩ whole
      | string | sortedSet => rfl
    simp only [run, setAdd_eq_grow]
    exact ⟨0, .inl rfl, same_at_grow_of_lapses he other⟩
  | sortedAdd key' pairs =>
    cases about
    obtain ⟨data, deadline⟩ := e
    have other : (Addition.scores pairs).add data = none := by
      cases data with
      | sortedSet old => exact absurd ⟨old, deadline, he⟩ whole
      | string | set => rfl
    simp only [run, sortedAdd_eq_grow]
    exact ⟨0, .inl rfl, same_at_grow_of_lapses he other⟩
  | _ => cases about

/-! ## Commands that are torn -/

/-- At each of the two readings the entry is there or gone. -/
theorem Lapses.live?_instant (h : Lapses clock s key e) {i : Nat} (hi : i < 2) :
    s.live? (clock.instant i) key = some e ∨ s.live? (clock.instant i) key = none := by
  match i, hi with
  | 0, _ => exact .inl h.live?_first
  | 1, _ => exact .inr (by rw [← lookup_fst, h.lookup_instant])

/-- An addition of the right type succeeds at one instant, whether the container is there or not. -/
theorem not_same_at_grow_of_lapses (h : Lapses clock s key e) {a : Addition}
    (fits : (a.add e.data).isSome) {i : Nat} (hi : i < 2) :
    ¬ SameAt (clock 1) (s.grow clock key a) (s.grow (.frozen (clock.instant i)) key a) := by
  intro hsame
  have hreply := hsame.reply
  rw [grow_eq_of_lapses h, (grow_applies (clock.instant i) s key a).reply] at hreply
  have hok : (a.add ((s.live? (clock.instant i) key).getD (.lasting a.fresh)).data).isSome := by
    rcases h.live?_instant hi with hl | hl <;> rw [hl]
    · exact fits
    · exact a.add_fresh
  obtain ⟨grown, hgrown⟩ := Option.isSome_iff_exists.mp hok
  simp only [Addition.effect, hgrown] at hreply
  cases hreply

/-- At the first reading the sum keeps a deadline that the second one has reached, and at the second
reading the counter is absent and the sum another one. -/
theorem not_same_at_increase_of_lapses (h : Lapses clock s key e) {n sum delta : Int64}
    (hn : counter (some e) = .ok n) (hne : n ≠ 0)
    (hsum : int64OfInt? (n.toInt + delta.toInt) = some sum) {i : Nat} (hi : i < 2) :
    ¬ SameAt (clock 1) (s.increase clock key delta)
      (s.increase (.frozen (clock.instant i)) key delta) := by
  intro hsame
  rw [increase_eq_of_lapses h hn hsum] at hsame
  match i, hi with
  | 0, _ =>
    have hview := hsame.live? key
    have hfirst : s.lookup (clock.instant 0) key = (some e, s) := h.lookup_first
    simp only [Keyspace.increase, Readings.frozen, hfirst, hn, hsum] at hview
    rw [live?_insert rfl, if_pos rfl, eq_comm, live?_eq_some_iff, entries_insert, if_pos rfl]
      at hview
    obtain ⟨hlasting, -⟩ := hview
    have hnone : e.deadline = none := congrArg Entry.deadline (Option.some.inj hlasting)
    have hexpired := h.2.2
    rw [Entry.expired, hnone] at hexpired
    cases hexpired
  | 1, _ =>
    have hreply := hsame.reply
    cases hfresh : int64OfInt? ((0 : Int64).toInt + delta.toInt) with
    | none =>
      simp only [Keyspace.increase, Readings.frozen, h.lookup_instant, counter, hfresh] at hreply
      cases hreply
    | some fresh =>
      rw [increase_instant_of_lapses h hfresh] at hreply
      cases hreply
      have hold := int64OfInt?_eq_some_iff.mp hsum
      rw [int64OfInt?_eq_some_iff.mp hfresh] at hold
      have hzero : n.toInt = (0 : Int64).toInt := by omega
      exact hne (Int64.toInt_inj.mp hzero)

theorem Request.readings_of_torn (torn : r.Torn clock s) : r.readings clock s = 2 := by
  cases r with
  | increase key delta =>
    obtain ⟨e, n, he, hn, -, hsum⟩ := torn
    simp only [readings, he.live?_first, hn, if_pos hsum]
  | setAdd | sortedAdd => rfl
  | _ => cases torn

/-- A torn request does what it would do at none of its readings. -/
theorem Request.not_same_at_of_torn (torn : r.Torn clock s) {i : Nat} (hi : i < 2) :
    ¬ SameAt (clock 1) (r.run clock s) (r.run (.frozen (clock.instant i)) s) := by
  intro hsame
  cases r with
  | increase key delta =>
    obtain ⟨e, n, he, hn, hne, hsum⟩ := torn
    obtain ⟨sum, hsum⟩ := Option.isSome_iff_exists.mp hsum
    exact not_same_at_increase_of_lapses he hn hne hsum hi hsame
  | setAdd key members =>
    obtain ⟨old, deadline, he⟩ := torn
    simp only [run, setAdd_eq_grow] at hsame
    exact not_same_at_grow_of_lapses he rfl hi hsame
  | sortedAdd key pairs =>
    obtain ⟨old, deadline, he⟩ := torn
    simp only [run, sortedAdd_eq_grow] at hsame
    exact not_same_at_grow_of_lapses he rfl hi hsame
  | _ => cases torn

theorem not_at_one_instant_of_torn (hr : Request.ofCall name args = .ok r)
    (torn : r.Torn clock s) : ¬ AtOneInstant clock s name args := by
  simp only [AtOneInstant, Keyspace.readings, Keyspace.dispatch, hr, Request.readings_of_torn torn]
  rintro ⟨i, hi, hsame⟩
  exact Request.not_same_at_of_torn torn (by omega) hsame

/-! ## Main result -/

/-- **A command about one key acts at one instant exactly if it is not torn.** A call that makes no
request acts at any instant. -/
theorem single_key_command_at_one_instant_iff (clock : Readings)
    (steady : ∀ i j, i ≤ j → (clock i).nanos ≤ (clock j).nanos) (s : Keyspace) (name : String)
    (args : List String)
    (single : ∀ r, Request.ofCall name args = .ok r → r.key?.isSome) :
    AtOneInstant clock s name args ↔
      ∀ r, Request.ofCall name args = .ok r → ¬ r.Torn clock s := by
  constructor
  · intro h r hr torn
    exact not_at_one_instant_of_torn hr torn h
  · intro whole
    cases hr : Request.ofCall name args with
    | error fault =>
      refine ⟨0, .inl rfl, .of_eq ?_⟩
      simp only [Keyspace.dispatch, hr]
    | ok r =>
      obtain ⟨key, about⟩ := Option.isSome_iff_exists.mp (single r hr)
      simp only [AtOneInstant, Keyspace.readings, Keyspace.dispatch, hr]
      exact Request.same_at_of_not_torn (steady 0 1 (Nat.zero_le 1)) about (whole r hr)

/-- Clocks that go from the last nanosecond of a millisecond to the next millisecond between the
first two readings. -/
def tickingClock : Readings := fun i => if i = 0 then ⟨999999, 0⟩ else ⟨1000000, 1⟩

/-- A keyspace whose only key expires after a millisecond. -/
def lapsingKeyspace (data : Data) : Keyspace := Keyspace.empty.insert "k" ⟨data, some 1000000⟩

theorem lapses_lapsingKeyspace (data : Data) :
    Lapses tickingClock (lapsingKeyspace data) "k" ⟨data, some 1000000⟩ :=
  ⟨by rw [lapsingKeyspace, entries_insert, if_pos rfl], rfl, rfl⟩

theorem nanos_tickingClock_mono {i j : Nat} (h : i ≤ j) :
    (tickingClock i).nanos ≤ (tickingClock j).nanos := by
  unfold tickingClock
  by_cases hi : i = 0
  · rw [if_pos hi]
    split
    · exact Nat.le_refl _
    · exact Nat.le_succ 999999
  · have hj : j ≠ 0 := by omega
    simp only [if_neg hi, if_neg hj, Nat.le_refl]

/-- A counter that holds 0 when it lapses is as good as absent; any other one is torn. -/
theorem incr_at_one_instant_at_zero :
    AtOneInstant tickingClock (lapsingKeyspace (.string "0")) "INCR" ["k"] ∧
      ¬ AtOneInstant tickingClock (lapsingKeyspace (.string "5")) "INCR" ["k"] := by
  have hcall : Request.ofCall "INCR" ["k"] = .ok (.increase "k" 1) := by cbv
  have steady := fun i j (h : i ≤ j) => nanos_tickingClock_mono h
  have single : ∀ r, Request.ofCall "INCR" ["k"] = .ok r → r.key?.isSome := by
    intro r hr
    rw [hcall] at hr
    cases hr
    rfl
  constructor
  · rw [single_key_command_at_one_instant_iff _ steady _ _ _ single]
    intro r hr
    rw [hcall] at hr
    cases hr
    rintro ⟨e, n, hlapse, hn, hne, -⟩
    cases hlapse.live?_first.symm.trans (lapses_lapsingKeyspace _).live?_first
    have hzero : counter (some ⟨.string "0", some 1000000⟩) = .ok 0 := by cbv
    cases hzero.symm.trans hn
    exact hne rfl
  · rw [single_key_command_at_one_instant_iff _ steady _ _ _ single]
    intro whole
    refine whole _ hcall ⟨_, 5, lapses_lapsingKeyspace _, by cbv, by decide, by cbv⟩

/-- An addition to a set whose deadline passes after the first lookup has the reply of no instant:
it finds that the key is of the wrong type. -/
theorem sadd_not_at_one_instant :
    let s := lapsingKeyspace (.set (.ofList ["a"]))
    (s.dispatch tickingClock "SADD" ["k", "m"]).1 = .error .wrongType ∧
      ¬ AtOneInstant tickingClock s "SADD" ["k", "m"] := by
  intro s
  have hcall : Request.ofCall "SADD" ["k", "m"] = .ok (.setAdd "k" ["m"]) := by cbv
  have hlapse := lapses_lapsingKeyspace (.set (.ofList ["a"]))
  refine ⟨?_, not_at_one_instant_of_torn hcall ⟨_, _, hlapse⟩⟩
  simp only [s, Keyspace.dispatch, hcall, Request.run, setAdd_eq_grow, grow_eq_of_lapses hlapse]

end ScriptStore
