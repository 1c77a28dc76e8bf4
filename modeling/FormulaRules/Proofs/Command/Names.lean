import FormulaRules.Command.Assignment
import FormulaRules.Proofs.Token.Alone

/-!
# The names of assignments

An assignment asks of its name to be shaped like the names of formulas, but not to be different from
the keywords. Main statement: unless the name is a keyword in some letter case, the assignment is
accepted exactly if a formula reads the name as a variable, and it is the same variable. With a
keyword for a name the assignment is accepted as well, and no formula reads this name as a variable.

Blank characters around a name are dropped by both.
-/

namespace FormulaRules

/-- The names of assignments are shaped like the names and keywords of formulas. -/
theorem isVariableName_iff {cs : List Char} : isVariableName cs = true ↔ Token.IsWord cs := by
  cases cs with
  | nil => exact ⟨nofun, fun ⟨c, word, h, _⟩ => nomatch h⟩
  | cons c word =>
    rw [isVariableName, Bool.and_eq_true, List.all_eq_true]
    constructor
    · exact fun ⟨hstart, hword⟩ => ⟨c, word, rfl, hstart, hword⟩
    · rintro ⟨_, _, ⟨⟩, hstart, hword⟩
      exact ⟨hstart, hword⟩

namespace Assignment

/-- What stands before the first equals sign is the name, and all behind it is the value. -/
theorem ofText_append {name : String} (hname : '=' ∉ name.toList) (value : String) :
    ofText (name ++ "=" ++ value) =
      if isVariableName (Text.trim name).toList then .ok (Text.trim name, .ofLooseText value)
      else .error (.invalidName (Text.trim name)) := by
  have hcs : (name ++ "=" ++ value).toList = name.toList ++ '=' :: value.toList := by simp
  have hbefore : ∀ c ∈ name.toList, (c != '=') = true := by
    rintro c hc
    exact bne_iff_ne.mpr fun h => hname (h ▸ hc)
  have htake : (name.toList ++ '=' :: value.toList).takeWhile (· != '=') = name.toList := by
    simp [List.takeWhile_append_of_pos hbefore]
  have hdrop : (name.toList ++ '=' :: value.toList).dropWhile (· != '=') =
      '=' :: value.toList := by
    simp [List.dropWhile_append_of_pos hbefore]
  simp only [ofText, hcs, htake, hdrop, Text.trim, String.ofList_toList, String.toList_ofList]
  rfl

/-- An assignment is accepted for the shape of its name. -/
theorem ofText_append_eq_ok_iff {name : String} (hname : '=' ∉ name.toList) {value x : String}
    {v : Value} :
    ofText (name ++ "=" ++ value) = .ok (x, v) ↔
      Token.IsWord (Text.trim name).toList ∧ Text.trim name = x ∧ .ofLooseText value = v := by
  rw [ofText_append hname, ← isVariableName_iff]
  by_cases h : isVariableName (Text.trim name).toList = true
  · simp [h]
  · simp [h]

open Token

/-- An assignment whose name is no keyword is accepted exactly if a formula reads the name as a
variable, which is the one that is assigned. An assignment whose name is a keyword in some letter
case is accepted, and a formula reads this name as the keyword. -/
theorem ofText_eq_ok_iff_identifier {name : String} (hname : '=' ∉ name.toList) (value : String) :
    ((∀ b, Text.sameFolded (Text.trim name) (Value.boolean b).text = false) → ∀ x v,
      ofText (name ++ "=" ++ value) = .ok (x, v) ↔
        (identifier x).Fills name ∧ .ofLooseText value = v) ∧
    ∀ b, Text.sameFolded (Text.trim name) (Value.boolean b).text = true →
      ofText (name ++ "=" ++ value) = .ok (Text.trim name, .ofLooseText value) ∧
        (boolean b).Fills name := by
  constructor
  · intro hkeyword x v
    rw [ofText_append_eq_ok_iff hname, identifier_fills_iff]
    constructor
    · exact fun ⟨hword, hx, hv⟩ => ⟨⟨hx, hword, hkeyword⟩, hv⟩
    · exact fun ⟨⟨hx, hword, _⟩, hv⟩ => ⟨hword, hx, hv⟩
  · intro b h
    have hfills := boolean_fills_iff.mpr h
    obtain ⟨hword, -⟩ := eq_of_fills hfills (.inr ⟨b, rfl⟩)
    exact ⟨(ofText_append_eq_ok_iff hname).mpr ⟨hword, rfl, rfl⟩, hfills⟩

/-- The name `true` is accepted, and no formula reads it as a variable. -/
theorem keyword_accepted_as_name :
    '=' ∉ "true".toList ∧
    ofText ("true" ++ "=" ++ "1") = .ok ("true", .ofLooseText "1") ∧
    ∀ x, ¬(identifier x).Fills "true" := by
  have hfills : (boolean true).Fills "true" := boolean_fills_iff.mpr (by cbv)
  have hword : IsWord (Text.trim "true").toList :=
    (eq_of_fills hfills (.inr ⟨true, rfl⟩)).1
  have htrim : Text.trim "true" = "true" := by decide +kernel
  have hname : '=' ∉ "true".toList := by decide
  refine ⟨hname, (ofText_append_eq_ok_iff hname).mpr ⟨hword, htrim, rfl⟩, fun x h => ?_⟩
  cases h.2.symm.trans hfills.2

/-- Wide blanks around a name belong to no name, and the value may have equals signs in it. A
keyword in mixed letter case is accepted as it is written. -/
theorem ofText_eq_ok_iff_identifier_wide :
    ('=' ∉ "\u3000rate_2 ".toList ∧
      (∀ b, Text.sameFolded (Text.trim "\u3000rate_2 ") (Value.boolean b).text = false) ∧
      ofText ("\u3000rate_2 " ++ "=" ++ "a=b") = .ok ("rate_2", .ofLooseText "a=b") ∧
      (identifier "rate_2").Fills "\u3000rate_2 ") ∧
    '=' ∉ "TrUe".toList ∧
    Text.sameFolded (Text.trim "TrUe") (Value.boolean true).text = true ∧
    ofText ("TrUe" ++ "=" ++ "1") = .ok (Text.trim "TrUe", .ofLooseText "1") ∧
    (boolean true).Fills "TrUe" := by
  have hname : '=' ∉ "\u3000rate_2 ".toList := by decide
  have hkeyword (b : Bool) :
      Text.sameFolded (Text.trim "\u3000rate_2 ") (Value.boolean b).text = false := by
    cases b with
    | true => cbv
    | false => cbv
  have hfills : (identifier "rate_2").Fills "\u3000rate_2 " := ⟨by cbv, by cbv⟩
  have hsame : (identifier "rate_2").Fills "\u3000rate_2 " ∧
      Value.ofLooseText "a=b" = .ofLooseText "a=b" := ⟨hfills, rfl⟩
  have haccepted := ((ofText_eq_ok_iff_identifier hname "a=b").1 hkeyword _ _).mpr hsame
  have htrue : '=' ∉ "TrUe".toList := by decide
  have hfolded : Text.sameFolded (Text.trim "TrUe") (Value.boolean true).text = true := by cbv
  have hfound := (ofText_eq_ok_iff_identifier htrue "1").2 true hfolded
  exact ⟨⟨hname, hkeyword, haccepted, hfills⟩, htrue, hfolded, hfound⟩

end Assignment

end FormulaRules
