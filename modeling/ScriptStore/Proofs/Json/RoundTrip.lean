import Mathlib
import ScriptStore.Proofs.Json.Document

/-!
# Values and their documents

* `Value.ofJsonBy?_json` — **a value comes back from its document** if its doubles do; for
  `Value.ofJson?` these are the doubles that `Json.scaledFloat?` reads back.
* `Value.isDocument_of_ofJsonBy?` — what comes from a document can be written as one.
* `json_round_trip` — **with a reader that takes the nearest double every value that can be written
  as a document comes back from it**, so different values have different documents, and what a
  document stands for is what its own document stands for.
-/

namespace ScriptStore

open Json

variable {read : FloatReader} {v : Value} {text : String}

/-- **A value comes back from its document** if its doubles do. -/
theorem Value.ofJsonBy?_json (ordered : v.InOrder) (depth : v.depth < depthLimit)
    (back : v.AllFloats (ReadsBack read)) : ofJsonBy? read v.json = some v := by
  have hrow := row_tokens v back
  have htokens : Token.ofText? read v.json.toList = some (tokens v) := by
    rw [json, String.toList_ofList]
    exact Token.ofText?_row hrow.apart hrow.back
  have hbuild : (tokens v).foldlM Builder.step .empty = some ⟨[], .done v⟩ :=
    steps_tokens v ordered [] (by simpa using depth)
  rw [ofJsonBy?, htokens, Option.bind_some, ofTokens?, hbuild]
  rfl

/-- What comes from a document can be written as one. -/
theorem Value.isDocument_of_ofJsonBy? (nearest : ReadsNearest read)
    (h : ofJsonBy? read text = some v) : v.IsDocument := by
  rw [ofJsonBy?, Option.bind_eq_some_iff] at h
  obtain ⟨ts, hts, hv⟩ := h
  exact isDocument_of_ofTokens? (Token.finite_of_ofText? nearest hts) hv

/-- A reader that takes the nearest double brings back every value that can be written. -/
theorem Value.IsDocument.ofJsonBy?_json (document : v.IsDocument) (nearest : ReadsNearest read) :
    Value.ofJsonBy? read v.json = some v := by
  have hdepth : v.depth < depthLimit := Nat.lt_of_le_of_lt document.depth (by decide)
  refine Value.ofJsonBy?_json document.inOrder hdepth (document.finite.imp fun w hw => ?_)
  cases w with
  | float f => exact nearest.readsBack hw
  | _ => trivial

/-- **With a reader that takes the nearest double every value that can be written as a document
comes back from it.** So different values have different documents, and what a document stands for
is what its own document stands for. -/
theorem json_round_trip (nearest : ReadsNearest read) :
    (∀ v : Value, v.IsDocument → Value.ofJsonBy? read v.json = some v) ∧
    (∀ v w : Value, v.IsDocument → w.IsDocument → v.json = w.json → v = w) ∧
    ∀ (text : String) (v : Value), Value.ofJsonBy? read text = some v →
      Value.ofJsonBy? read v.json = some v := by
  refine ⟨fun v hv => hv.ofJsonBy?_json nearest, fun v w hv hw heq => ?_, fun text v h => ?_⟩
  · have hback := hv.ofJsonBy?_json nearest
    rw [heq, hw.ofJsonBy?_json nearest] at hback
    exact (Option.some.inj hback).symm
  · exact (Value.isDocument_of_ofJsonBy? nearest h).ofJsonBy?_json nearest

/-- A value with the least integer, doubles that look like integers and names that need escapes
comes back, from the reader of documents as well. -/
theorem json_round_trip_of_extremes :
    let v : Value := .mapping
      [("", .nil), ("\"\\\n\x01", .text "\"\\/\x08\x1f é"),
        ("a", .sequence [.integer Int64.minValue, .float (-0.0), .float 1.0, .float 0.1,
          .boolean true, .sequence [], .mapping []])]
    Value.ofJsonBy? nearestFloat? v.json = some v ∧ Value.ofJson? v.json = some v ∧
      (Value.integer 1).json ≠ (Value.float 1.0).json := by
  intro v
  have nearest : ReadsNearest nearestFloat? := fun _ _ => rfl
  have hordered : v.InOrder := by
    simp [v, Value.InOrder, Value.Ordered, Fields.Sorted, -String.lt_iff_ltb]
  have hfloats {P : Float → Prop} (hzero : P (-0.0)) (hone : P 1.0) (htenth : P 0.1) :
      v.AllFloats P := by
    simp [v, Value.AllFloats, Value.FloatIs, hzero, hone, htenth]
  have hdepth : v.depth = 3 := by
    simp [v, Value.depth, Value.itemsDepth, Value.fieldsDepth]
  have hv : v.IsDocument :=
    ⟨hordered, hfloats (by decide +kernel) (by decide +kernel) (by decide +kernel),
      by rw [hdepth]; decide⟩
  refine ⟨(json_round_trip nearest).1 v hv, ?_, fun heq => ?_⟩
  · exact Value.ofJsonBy?_json hordered (by rw [hdepth]; decide)
      (hfloats (by decide +kernel) (by decide +kernel) (by decide +kernel))
  · have hfinite : Float.isFinite 1.0 = true := by decide +kernel
    have hequal := (json_round_trip nearest).2.1 (.integer 1) (.float 1.0)
      (Value.fits_of_scalar rfl trivial) (Value.fits_of_scalar rfl hfinite) heq
    cases hequal

end ScriptStore
