import ScriptStore.Json.Document
import ScriptStore.Proofs.Json.Token
import ScriptStore.Proofs.Value.Fields
import ScriptStore.Proofs.Value.Shape

/-!
# Documents read back

* `Value.IsDocument` — the values that documents have: members in the order of their names, finite
  doubles, and containers as deep inside each other as a document may have them.
* `Json.row_tokens` — the tokens of a value are a row that reads back.
* `Json.steps_tokens` — **the tokens of a value build it again**.
* `Json.Builder.Sound` — what a builder has built so far is part of a document.
-/

namespace ScriptStore

namespace Value

/-- Something holds of a value if it is a double. -/
def FloatIs (P : Float → Prop) : Value → Prop
  | .float f => P f
  | _ => True

/-- The members of a mapping are in the order of their names. -/
def Ordered : Value → Prop
  | .mapping fields => Fields.Sorted fields
  | _ => True

/-- Something holds of every double in a value. -/
def AllFloats (P : Float → Prop) (v : Value) : Prop := v.Everywhere (FloatIs P)

/-- The members of every mapping are in the order of their names. -/
def InOrder (v : Value) : Prop := v.Everywhere Ordered

/-- Part of a document, with no more than so many containers inside each other. -/
structure Fits (n : Nat) (v : Value) : Prop where
  inOrder : v.InOrder
  finite : v.AllFloats fun f => f.isFinite = true
  depth : v.depth ≤ n

theorem fits_of_scalar {n : Nat} {v : Value} (scalar : v.depth = 0)
    (finite : v.FloatIs fun f => f.isFinite = true) : v.Fits n := by
  have hplain : v.children = [] ∧ v.Ordered := by
    cases v with
    | sequence items => cases scalar
    | mapping fields => cases scalar
    | _ => exact ⟨rfl, trivial⟩
  exact ⟨(everywhere_iff_of_scalar hplain.1).mpr hplain.2,
    (everywhere_iff_of_scalar hplain.1).mpr finite, by omega⟩

theorem fits_succ {n : Nat} {v : Value} (ordered : v.Ordered)
    (finite : v.FloatIs fun f => f.isFinite = true) (below : ∀ child ∈ v.children, child.Fits n) :
    v.Fits (n + 1) where
  inOrder := .intro ordered fun child hchild => (below child hchild).inOrder
  finite := .intro finite fun child hchild => (below child hchild).finite
  depth := depth_le_succ_iff.mpr fun child hchild => (below child hchild).depth

/-- The values that documents have. -/
def IsDocument (v : Value) : Prop := v.Fits (Json.depthLimit - 1)

end Value

namespace Json

variable {read : FloatReader} {v : Value} {items : List Value} {fields : Fields Value}
  {t : Token} {ts ts' : List Token} {stack : List Frame} {b b' : Builder}

/-! ## The tokens of a value -/

/-- A row of tokens that reads back. -/
structure Row (read : FloatReader) (ts : List Token) : Prop where
  apart : ts.IsChain Reader.Apart
  back : ∀ t ∈ ts, t.ReadsBack read

theorem row_nil : Row read [] := ⟨.nil, by simp⟩

theorem row_singleton (back : t.ReadsBack read) : Row read [t] :=
  ⟨.singleton t, by simpa using back⟩

/-- Rows with a token between them that is no word or number. -/
theorem Row.between (row : Row read ts) (row' : Row read ts') (bare : t.isBare = false) :
    Row read (ts ++ t :: ts') where
  apart := by
    refine row.apart.append (row'.apart.cons fun _ _ => .inl bare) fun _ _ t' ht' => .inr ?_
    rwa [← Option.some.inj ht']
  back := by
    refine List.forall_mem_append.mpr ⟨row.back, List.forall_mem_cons.mpr ⟨?_, row'.back⟩⟩
    cases t with
    | float f => cases bare
    | _ => trivial

theorem row_itemTokens (h : ∀ v ∈ items, Row read (tokens v)) : Row read (itemTokens items) := by
  induction items with
  | nil => exact row_nil
  | cons v items ih =>
    obtain ⟨hv, hitems⟩ := List.forall_mem_cons.mp h
    cases items with
    | nil => exact hv
    | cons w items => exact hv.between (ih hitems) rfl

theorem row_memberTokens (h : ∀ field ∈ fields, Row read (tokens field.2)) :
    Row read (memberTokens fields) := by
  induction fields with
  | nil => exact row_nil
  | cons field fields ih =>
    obtain ⟨name, v⟩ := field
    obtain ⟨hv, hfields⟩ := List.forall_mem_cons.mp h
    have hmember : Row read (.text name :: .colon :: tokens v) :=
      row_nil.between (row_nil.between hv rfl) rfl
    cases fields with
    | nil => exact hmember
    | cons field fields => exact hmember.between (ih hfields) rfl

/-- **The tokens of a value are a row that reads back** if its doubles are. -/
theorem row_tokens (v : Value) (back : v.AllFloats (ReadsBack read)) : Row read (tokens v) := by
  induction v using Value.of_children with
  | step v ih =>
    obtain ⟨here, below⟩ := Value.everywhere_iff.mp back
    cases v with
    | float f => exact row_singleton here
    | sequence items =>
      have hitems := row_itemTokens fun v hv => ih v hv (below v hv)
      exact (row_nil.between hitems rfl).between row_nil rfl
    | mapping fields =>
      have hfields : Row read (memberTokens fields) := row_memberTokens fun field hfield =>
        ih _ (List.mem_map_of_mem hfield) (below _ (List.mem_map_of_mem hfield))
      exact (row_nil.between hfields rfl).between row_nil rfl
    | _ => exact row_singleton trivial

/-! ## Building a value from its tokens -/

/-- The tokens of a value do not begin with the end of a container. -/
theorem exists_tokens_eq (v : Value) : ∃ t ts, tokens v = t :: ts ∧ t ≠ .closeArray := by
  cases v <;> exact ⟨_, _, rfl, fun h => by cases h⟩

/-- In an array that has just begun, items may stand as after a comma. -/
theorem steps_valueOrClose (first : Value) (items : List Value) :
    (itemTokens (first :: items)).foldlM Builder.step ⟨stack, .valueOrClose⟩ =
      (itemTokens (first :: items)).foldlM Builder.step ⟨stack, .value⟩ := by
  obtain ⟨t, ts, htokens, ht⟩ := exists_tokens_eq first
  have hstep : Builder.step ⟨stack, .valueOrClose⟩ t = Builder.step ⟨stack, .value⟩ t := by
    cases t with
    | closeArray => exact absurd rfl ht
    | _ => rfl
  have hitems : ∃ ts, itemTokens (first :: items) = t :: ts := by
    cases items with
    | nil => exact ⟨ts, htokens⟩
    | cons next items =>
      rw [show itemTokens (first :: next :: items) =
        tokens first ++ .comma :: itemTokens (next :: items) from rfl, htokens]
      exact ⟨_, rfl⟩
  obtain ⟨ts, hitems⟩ := hitems
  rw [hitems, List.foldlM_cons, List.foldlM_cons, hstep]

/-- In an object that has just begun, members may stand as after a comma. -/
theorem steps_nameOrClose (first : String × Value) (fields : Fields Value) :
    (memberTokens (first :: fields)).foldlM Builder.step ⟨stack, .nameOrClose⟩ =
      (memberTokens (first :: fields)).foldlM Builder.step ⟨stack, .name⟩ := by
  cases fields <;> rfl

theorem push_of_room {frame : Frame} {expect : Expect} (room : stack.length + 1 < depthLimit) :
    push frame expect stack = some ⟨frame :: stack, expect⟩ := if_pos room

/-- The tokens of a value build it in its place. -/
def Builds (v : Value) (stack : List Frame) : Prop :=
  (tokens v).foldlM Builder.step ⟨stack, .value⟩ = place v stack

/-- The items of an array are built one after another. -/
theorem steps_itemTokens {first : Value}
    (builds : ∀ v ∈ first :: items, ∀ held, Builds v (.array held :: stack)) (held : List Value) :
    (itemTokens (first :: items)).foldlM Builder.step ⟨.array held :: stack, .value⟩ =
      some ⟨.array ((first :: items).reverse ++ held) :: stack, .separator⟩ := by
  induction items generalizing first held with
  | nil => exact builds first (List.mem_cons_self ..) held
  | cons next items ih =>
    obtain ⟨hfirst, hitems⟩ := List.forall_mem_cons.mp builds
    calc (tokens first ++ .comma :: itemTokens (next :: items)).foldlM Builder.step
          ⟨.array held :: stack, .value⟩
        = (itemTokens (next :: items)).foldlM Builder.step
            ⟨.array (first :: held) :: stack, .value⟩ := by
          rw [foldlM_append_of_eq_some (hfirst held)]
          exact foldlM_cons_of_eq_some rfl
      _ = some ⟨.array ((next :: items).reverse ++ first :: held) :: stack, .separator⟩ :=
          ih hitems (first :: held)
      _ = some ⟨.array ((first :: next :: items).reverse ++ held) :: stack, .separator⟩ := by
          rw [List.reverse_cons (a := first), List.append_assoc, List.singleton_append]

/-- The members of an object are built one after another, in the order of their names. -/
theorem steps_memberTokens {first : String × Value}
    (builds : ∀ field ∈ first :: fields, ∀ held name, Builds field.2 (.member held name :: stack))
    (held : Fields Value) (sorted : Fields.Sorted (held ++ first :: fields)) :
    (memberTokens (first :: fields)).foldlM Builder.step ⟨.object held :: stack, .name⟩ =
      some ⟨.object (held ++ first :: fields) :: stack, .separator⟩ := by
  induction fields generalizing first held with
  | nil =>
    obtain ⟨name, v⟩ := first
    have hv := builds _ (List.mem_cons_self ..) held name
    rw [Builds, place, sorted.insert_last] at hv
    exact hv
  | cons next fields ih =>
    obtain ⟨name, v⟩ := first
    obtain ⟨hfirst, hfields⟩ := List.forall_mem_cons.mp builds
    have hsplit : held ++ (name, v) :: next :: fields =
        (held ++ [(name, v)]) ++ next :: fields := by
      rw [List.append_assoc, List.singleton_append]
    rw [hsplit] at sorted ⊢
    have hv := hfirst held name
    have hlast : Fields.Sorted (held ++ [(name, v)]) := (List.pairwise_append.mp sorted).1
    rw [Builds, place, hlast.insert_last] at hv
    calc (tokens v ++ .comma :: memberTokens (next :: fields)).foldlM Builder.step
          ⟨.member held name :: stack, .value⟩
        = (memberTokens (next :: fields)).foldlM Builder.step
            ⟨.object (held ++ [(name, v)]) :: stack, .name⟩ := by
          rw [foldlM_append_of_eq_some hv]
          exact foldlM_cons_of_eq_some rfl
      _ = some ⟨.object ((held ++ [(name, v)]) ++ next :: fields) :: stack, .separator⟩ :=
          ih hfields (held ++ [(name, v)]) sorted

/-- **The tokens of a value build it again**, as far as there is room for it. -/
theorem steps_tokens (v : Value) (ordered : v.InOrder) (stack : List Frame)
    (room : stack.length + v.depth < depthLimit) : Builds v stack := by
  induction v using Value.of_children generalizing stack with
  | step v ih =>
    obtain ⟨here, below⟩ := Value.everywhere_iff.mp ordered
    have hchildren (hcontainer : 0 < v.depth) : ∀ frame, ∀ child ∈ v.children,
        Builds child (frame :: stack) := by
      intro frame child hchild
      have hdepth : child.depth ≤ v.depth - 1 :=
        Value.depth_le_succ_iff.mp (by omega) child hchild
      refine ih child hchild (below child hchild) (frame :: stack) ?_
      rw [List.length_cons]
      omega
    cases v with
    | sequence items =>
      have hroom : stack.length + 1 < depthLimit := by
        rw [Value.depth] at room
        omega
      have hopen : Builder.step ⟨stack, .value⟩ .openArray =
          some ⟨.array [] :: stack, .valueOrClose⟩ := push_of_room hroom
      rw [Builds, tokens, List.cons_append, foldlM_cons_of_eq_some hopen]
      cases items with
      | nil => exact foldlM_singleton ..
      | cons first items =>
        have hitems := steps_itemTokens
          (fun v hv held => hchildren (by rw [Value.depth]; omega) (.array held) v hv) []
        rw [← steps_valueOrClose] at hitems
        rw [foldlM_append_of_eq_some hitems, List.append_nil, foldlM_singleton]
        exact congrArg (fun items => place (.sequence items) stack) (List.reverse_reverse _)
    | mapping fields =>
      have hroom : stack.length + 1 < depthLimit := by
        rw [Value.depth] at room
        omega
      have hopen : Builder.step ⟨stack, .value⟩ .openObject =
          some ⟨.object [] :: stack, .nameOrClose⟩ := push_of_room hroom
      rw [Builds, tokens, List.cons_append, foldlM_cons_of_eq_some hopen]
      cases fields with
      | nil => exact foldlM_singleton ..
      | cons first fields =>
        have hfields := steps_memberTokens (fun field hfield held name =>
          hchildren (by rw [Value.depth]; omega) (.member held name) field.2
            (List.mem_map_of_mem hfield)) [] here
        rw [← steps_nameOrClose] at hfields
        rw [foldlM_append_of_eq_some hfields, foldlM_singleton]
        rfl
    | _ => exact foldlM_singleton ..

/-! ## What has been built is part of a document -/

/-- How many containers there is room for. -/
def room (stack : List Frame) : Nat := depthLimit - 1 - stack.length

/-- What a container holds so far has so many containers inside each other at most. -/
def Frame.Sound (n : Nat) : Frame → Prop
  | .array items => ∀ v ∈ items, v.Fits n
  | .object fields | .member fields _ => Fields.Sorted fields ∧ ∀ field ∈ fields, field.2.Fits n

/-- Containers that are open. -/
def StackSound : List Frame → Prop
  | [] => True
  | frame :: stack =>
    stack.length + 1 < depthLimit ∧ frame.Sound (room (frame :: stack)) ∧ StackSound stack

/-- What has been built so far is part of a document. -/
structure Builder.Sound (b : Builder) : Prop where
  stack : StackSound b.stack
  done : ∀ v, b.expect = .done v → v.IsDocument

theorem room_cons {frame : Frame} (h : stack.length + 1 < depthLimit) :
    room stack = room (frame :: stack) + 1 := by
  unfold room
  rw [List.length_cons]
  omega

theorem sound_place (fits : v.Fits (room stack)) (sound : StackSound stack)
    (h : place v stack = some b) : b.Sound := by
  unfold place at h
  split at h
  · cases h
    refine ⟨trivial, fun w hw => ?_⟩
    cases hw
    exact fits
  · cases h
    obtain ⟨hroom, hframe, hstack⟩ := sound
    refine ⟨⟨hroom, List.forall_mem_cons.mpr ⟨fits, hframe⟩, hstack⟩, fun w hw => by cases hw⟩
  · cases h
    obtain ⟨hroom, ⟨hsorted, hfields⟩, hstack⟩ := sound
    refine ⟨⟨hroom, ⟨hsorted.insert _ _, fun field hfield => ?_⟩, hstack⟩, fun w hw => by cases hw⟩
    rcases Fields.mem_insert hfield with rfl | hfield
    · exact fits
    · exact hfields field hfield
  · cases h

theorem sound_placeScalar (h : place v stack = some b) (sound : StackSound stack)
    (scalar : v.depth = 0) (finite : v.FloatIs fun f => f.isFinite = true) : b.Sound :=
  sound_place (Value.fits_of_scalar scalar finite) sound h

theorem sound_push {frame : Frame} {expect : Expect} (sound : StackSound stack)
    (hframe : ∀ n, frame.Sound n) (hexpect : ∀ v, expect ≠ .done v)
    (h : push frame expect stack = some b) : b.Sound := by
  unfold push at h
  split at h
  · rename_i hroom
    cases h
    exact ⟨⟨hroom, hframe _, sound⟩, fun v hv => absurd hv (hexpect v)⟩
  · cases h

theorem sound_beginValue (sound : StackSound stack) (finite : t.Finite)
    (h : beginValue stack t = some b) : b.Sound := by
  cases t with
  | openArray =>
    have hempty (n : Nat) : (Frame.array []).Sound n := fun v hv => absurd hv List.not_mem_nil
    exact sound_push sound hempty (fun v hv => by cases hv) h
  | openObject =>
    have hempty (n : Nat) : (Frame.object []).Sound n :=
      ⟨.nil, fun v hv => absurd hv List.not_mem_nil⟩
    exact sound_push sound hempty (fun v hv => by cases hv) h
  | null | boolean | integer | text => exact sound_placeScalar h sound rfl trivial
  | float f => exact sound_placeScalar h sound rfl finite
  | _ => cases h

theorem sound_close (sound : StackSound stack) (h : close t stack = some b) : b.Sound := by
  unfold close at h
  split at h
  · obtain ⟨hroom, hframe, hstack⟩ := sound
    refine sound_place ?_ hstack h
    rw [room_cons hroom]
    exact Value.fits_succ trivial trivial fun v hv => hframe v (List.mem_reverse.mp hv)
  · obtain ⟨hroom, ⟨hsorted, hfields⟩, hstack⟩ := sound
    refine sound_place ?_ hstack h
    rw [room_cons hroom]
    exact Value.fits_succ hsorted trivial (List.forall_mem_map.mpr hfields)
  · cases h

theorem sound_beginMember (sound : StackSound stack) (h : beginMember t stack = some b) :
    b.Sound := by
  unfold beginMember at h
  split at h
  · cases h
    exact ⟨sound, fun v hv => by cases hv⟩
  · cases h

/-- **A token keeps what has been built part of a document.** -/
theorem Builder.Sound.step (sound : b.Sound) (finite : t.Finite) (h : b.step t = some b') :
    b'.Sound := by
  have hstack := sound.stack
  unfold Builder.step at h
  split at h
  · exact sound_beginValue hstack finite h
  · exact sound_close hstack h
  · exact sound_beginValue hstack finite h
  · exact sound_close hstack h
  · exact sound_beginMember hstack h
  · exact sound_beginMember hstack h
  · cases h
    exact ⟨hstack, fun v hv => by cases hv⟩
  · cases h
  · split at h
    · cases h
      exact ⟨hstack, fun v hv => by cases hv⟩
    · cases h
      exact ⟨hstack, fun v hv => by cases hv⟩
    · cases h
  · exact sound_close hstack h
  · cases h

/-- **Finite tokens build documents only.** -/
theorem isDocument_of_ofTokens? (finite : ∀ t ∈ ts, t.Finite) (h : ofTokens? ts = some v) :
    v.IsDocument := by
  unfold ofTokens? at h
  rw [Option.bind_eq_bind, Option.bind_eq_some_iff] at h
  obtain ⟨b, hb, h⟩ := h
  have hempty : Builder.empty.Sound := ⟨trivial, fun v hv => by cases hv⟩
  have hsound : b.Sound :=
    foldlM_keeps (fun t ht _ _ hs hstep => hs.step (finite t ht) hstep) hempty hb
  split at h
  · rename_i w hw
    cases h
    exact hsound.done _ hw
  · cases h

end Json

end ScriptStore
