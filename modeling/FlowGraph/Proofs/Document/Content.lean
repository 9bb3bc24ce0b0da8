import FlowGraph.Proofs.Document.Saved

/-!
# What is written is read back, unless it is not finite

A value is written by its tag, its size and its content, a behavior by its state, and reading makes
the same value and the same behavior of it.  The exception is a float that is infinite or not a
number: it has no untyped form and is written as `null`.  As `null` is never written as a content,
a single number of that kind is read back as zero, while a `null` among several components, or in
the state of a constant, is refused (`content_reads_back_iff_finite`).
-/

namespace FlowGraph

/-! ## Numbers without an untyped form -/

namespace Json

theorem single_eq_null {x : Float32} (h : x.isFinite = false) : single x = .null :=
  if_neg fun hwide => Bool.false_ne_true (h.symm.trans ((Number.isFinite_widen x).symm.trans hwide))

/-- The first `null` among the components is where reading stops. -/
theorem readSingles_nonfinite (xs : List Float32) (h : xs.all Float32.isFinite = false) :
    readSingles xs.length (.list (xs.map single)) = .error (.shape .null .single) := by
  have hread : (xs.map single).mapM readSingle = .error (.shape .null .single) := by
    induction xs with
    | nil => cases h
    | cons x xs ih =>
      rw [List.map_cons, List.mapM_cons]
      by_cases hx : x.isFinite = true
      · rw [List.all_cons, hx, Bool.true_and] at h
        rw [readSingle_single hx, ih h]
        rfl
      · rw [single_eq_null (Bool.eq_false_iff.mpr hx)]
        rfl
  have htake : (xs.map single).take xs.length = xs.map single :=
    List.take_of_length_le (Nat.le_of_eq (List.length_map _))
  simp only [readSingles, htake, hread]
  rfl

end Json

/-! ## Values -/

namespace Value

/-- A single number that is not finite has no content to write, like a flow. -/
theorem isNull_toJson_nonfinite {v : Value} (h : v.isFinite = false) :
    v.toJson.isNull = decide (v.type = .float) := by
  cases v with
  | float x =>
    show (Json.single x).isNull = true
    rw [Json.single_eq_null h]
    rfl
  | _ => first | rfl | cases h

/-- Several components of which one is not finite cannot be read back. -/
theorem read_toJson_nonfinite {v : Value} (h : v.isFinite = false) (htype : v.type ≠ .float) :
    read v.type v.toJson = .error (.shape .null .single) := by
  cases v with
  | float x => exact absurd rfl htype
  | float2 x y =>
    have hread := Json.readSingles_nonfinite [x, y] (by simpa [isFinite] using h)
    exact congrArg (· >>= _) hread
  | float3 x y z =>
    have hread := Json.readSingles_nonfinite [x, y, z] (by simpa [isFinite] using h)
    exact congrArg (· >>= _) hread
  | float4 x y z w =>
    have hread := Json.readSingles_nonfinite [x, y, z, w] (by simpa [isFinite] using h)
    exact congrArg (· >>= _) hread
  | _ => cases h

end Value

/-- What reading makes of a written value: its tag and its size give its type, and its content is
    read unless there is none. -/
theorem Document.readValue_setValue {d : Document} (hd : d.get? "value" = none) (v : Value) :
    (d.setValue v).readValue =
      if v.toJson.isNull then .ok (.ofType v.type)
      else ((Value.read v.type v.toJson).mapError (.codec v.type)).mapError .value := by
  have htag : (d.setValue v).require "type" Json.readString = .ok v.type.tag :=
    require_eq_ok (get?_setValue_type d v) rfl
  have hcount : v.type.size ≤ 0xffffffffffffffff := by cases v.type <;> decide
  have hsize : (d.setValue v).require "size" Json.readCount = .ok v.type.size :=
    require_eq_ok (get?_setValue_size d v) (Json.readCount_nat hcount)
  have hvalue : (d.setValue v).get? "value" = if v.toJson.isNull then none else some v.toJson := by
    unfold setValue
    by_cases hnull : v.toJson.isNull = true <;> simp [hnull, hd]
  simp only [readValue, htag, hsize, bind, Except.bind, ValueType.ofTag?_tag_size, hvalue]
  by_cases hnull : v.toJson.isNull = true
  · simp only [if_pos hnull]
  · simp only [if_neg hnull, Value.load, Value.type_ofType]

/-- A value without a finite content: a single number becomes zero, and of several components the
    first that is not finite is refused. -/
theorem Document.readValue_nonfinite {d : Document} (hd : d.get? "value" = none) {v : Value}
    (h : v.isFinite = false) :
    (d.setValue v).readValue =
      if v.type = .float then .ok (.float 0)
      else .error (.value (.codec v.type (.shape .null .single))) := by
  rw [readValue_setValue hd, Value.isNull_toJson_nonfinite h]
  by_cases htype : v.type = .float
  · rw [if_pos htype, if_pos (decide_eq_true htype), htype]
    rfl
  · rw [if_neg htype, if_neg fun hnull => htype (of_decide_eq_true hnull),
      Value.read_toJson_nonfinite h htype]
    rfl

/-! ## States -/

/-- A constant that is not finite is saved as `null`, which is no number. -/
theorem Behavior.loadState_nonfinite {fresh b : Behavior} (hkind : fresh.kind = b.kind)
    (hfresh : fresh.isBuiltin = true) (h : b.isFinite = false) :
    fresh.loadState b.saveState = .error (.shape .null .single) := by
  cases b with
  | floatConstant x =>
    have hstateless := stateless_eq hkind hfresh rfl
    cases fresh <;> cases hstateless
    show Except.map floatConstant (Json.readSingle (Json.single x)) = _
    rw [Json.single_eq_null h]
    rfl
  | _ => cases h

/-- A value, and a built-in behavior, is read back as it was written exactly if it is finite. -/
theorem content_reads_back_iff_finite (d : Document) (v : Value) (fresh b : Behavior) :
    (d.get? "value" = none →
      ((d.setValue v).readValue = .ok v ↔ v.isFinite = true) ∧
      (v.isFinite = false → (d.setValue v).readValue =
        if v.type = .float then .ok (.float 0)
        else .error (.value (.codec v.type (.shape .null .single))))) ∧
    (fresh.kind = b.kind → fresh.isBuiltin = true → b.isBuiltin = true →
      (∀ p, b.bound = some p → p.number ≤ lastNumber) →
      (fresh.loadState b.saveState = .ok b ↔ b.isFinite = true) ∧
      (b.isFinite = false → fresh.loadState b.saveState = .error (.shape .null .single))) := by
  refine ⟨fun hd => ⟨⟨fun hread => ?_, fun hv => ?_⟩, Document.readValue_nonfinite hd⟩,
    fun hkind hfresh hb hbound => ⟨⟨fun hload => ?_, fun hf => ?_⟩,
      Behavior.loadState_nonfinite hkind hfresh⟩⟩
  · by_contra hv
    have hv := Bool.eq_false_iff.mpr hv
    rw [Document.readValue_nonfinite hd hv] at hread
    by_cases htype : v.type = .float
    · rw [if_pos htype] at hread
      cases hread
      cases hv
    · rw [if_neg htype] at hread
      cases hread
  · exact Document.readValue_eq_ok hv (Document.get?_setValue_type d v)
      (Document.get?_setValue_size d v) (Document.get?_setValue_value hv hd)
  · by_contra hf
    rw [Behavior.loadState_nonfinite hkind hfresh (Bool.eq_false_iff.mpr hf)] at hload
    cases hload
  · exact Behavior.loadState_saveState (.inl ⟨hkind, hfresh, hb⟩) hf hbound

/-- A negative zero keeps its sign and the last number is a binding like any other. -/
theorem negative_zero_stays_negative :
    (Document.setValue {} (.float2 1 (-0))).readValue = .ok (.float2 1 (-0)) ∧
      (Behavior.getVariable none).loadState (Behavior.getVariable (some ⟨lastNumber⟩)).saveState =
        .ok (.getVariable (some ⟨lastNumber⟩)) := by
  obtain ⟨hvalue, hstate⟩ := content_reads_back_iff_finite {} (.float2 1 (-0)) (.getVariable none)
    (.getVariable (some ⟨lastNumber⟩))
  have hnumber : ∀ p : PropertyId, some ⟨lastNumber⟩ = some p → p.number ≤ lastNumber := by
    intro p hp
    cases hp
    exact Nat.le_refl lastNumber
  exact ⟨(hvalue rfl).1.mpr (by decide +kernel), (hstate rfl rfl rfl hnumber).1.mpr rfl⟩

/-- The infinity that reading makes of a number beyond all singles. -/
def overflow : Float32 := Number.narrow 1e39

theorem isFinite_overflow : overflow.isFinite = false := by decide +kernel

/-- An infinity is written, but read back as zero; among other components, or as the state of a
    constant, it is refused. -/
theorem overflow_is_lost :
    Value.load (.float 0) (.float 1e39) = .ok (.float overflow) ∧
      (Document.setValue {} (.float overflow)).readValue = .ok (.float 0) ∧
      Value.float overflow ≠ .float 0 ∧
      (Document.setValue {} (.float2 overflow 1)).readValue =
        .error (.value (.codec .float2 (.shape .null .single))) ∧
      (Behavior.floatConstant 0).loadState (Behavior.floatConstant overflow).saveState =
        .error (.shape .null .single) := by
  have hpair : (Value.float2 overflow 1).isFinite = false := by
    rw [Value.isFinite, isFinite_overflow, Bool.false_and]
  have hkind : (Behavior.floatConstant 0).kind = (Behavior.floatConstant overflow).kind := by
    simp only [Behavior.kind]
  refine ⟨rfl, ?_, fun heq => ?_, ?_, ?_⟩
  · exact Document.readValue_nonfinite rfl isFinite_overflow
  · exact absurd ((congrArg Value.isFinite heq).symm.trans isFinite_overflow) (by decide +kernel)
  · exact Document.readValue_nonfinite rfl hpair
  · exact Behavior.loadState_nonfinite hkind rfl isFinite_overflow

end FlowGraph
