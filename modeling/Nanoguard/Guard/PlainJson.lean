import Nanoguard.Guard.JsonBlob
import Nanoguard.Lib.JsonSpelling

/-!
# Plain JSON answers

An answer that is a JSON document already goes through the extraction like any other. All but strings
come out as they are; of a string in which an opening bracket or brace comes before a closing one,
what stands between them is judged. Of the parser only the spelling of documents is used.
-/

namespace Nanoguard.Guard

open List

open Json (isSpace Spelled)

variable {v : Json} {ws core ws' : Text}

/-- The parser ignores white space around a document, and the document is spelled as its value
says. -/
def ReadsDocuments (J : JsonText) : Prop :=
  ∀ t v, J.fromStr t = .ok v → ∃ ws core ws', t = ws ++ (core ++ ws') ∧
    (∀ c ∈ ws ++ ws', isSpace c = true) ∧ Spelled v core ∧ J.fromStr core = .ok v

theorem isSpace_cases {c : Char} (h : isSpace c = true) :
    Str.isWhitespace c = true ∧ isOpen c = false ∧ isClose c = false := by
  unfold isSpace at h
  simp only [Bool.or_eq_true] at h
  rcases h with ((h | h) | h) | h <;> rw [eq_of_beq h] <;> decide

theorem scalar_cases {c : Char} (h : c.isAlphanum = true ∨ c ∈ ['+', '-', '.']) :
    Str.isWhitespace c = false ∧ c ≠ '\x60' ∧ isOpen c = false := by
  have hascii : c.toNat < 128 := by
    rcases h with h | h
    · exact Str.toNat_of_isAlphanum h
    · exact Str.toNat_of_isAscii rfl h
  have hall : ∀ n < 128, ((Char.ofNat n).isAlphanum = true ∨ Char.ofNat n ∈ ['+', '-', '.']) →
      Str.isWhitespace (Char.ofNat n) = false ∧ Char.ofNat n ≠ '\x60' ∧
        isOpen (Char.ofNat n) = false := by
    decide +kernel
  have hc := hall c.toNat hascii
  rw [Char.ofNat_toNat] at hc
  exact hc h

/-- A document starts and ends with a character of its own, and not with a fence. -/
theorem tight_of_spelled {t : Text} (h : Spelled v t) : Str.Tight t ∧ ¬ "```".toList <+: t := by
  have hframe : ∀ {o c : Char} {mid : Text}, Str.isWhitespace o = false →
      Str.isWhitespace c = false → o ≠ '\x60' →
      Str.Tight (o :: (mid ++ [c])) ∧ ¬ "```".toList <+: o :: (mid ++ [c]) := by
    intro o c mid ho hc hne
    refine ⟨⟨⟨o, _, rfl, ho⟩, ⟨o :: mid, c, rfl, hc⟩⟩, fun hpre => ?_⟩
    exact hne (cons_prefix_cons.1 hpre).1.symm
  have hscalar : Json.Scalar t → Str.Tight t ∧ ¬ "```".toList <+: t := by
    rintro ⟨hne, hall⟩
    obtain ⟨c, u, rfl⟩ := exists_cons_of_ne_nil hne
    have hc := scalar_cases (hall c mem_cons_self)
    refine ⟨⟨⟨c, u, rfl, hc.1⟩, ?_⟩, fun hpre => hc.2.1 (cons_prefix_cons.1 hpre).1.symm⟩
    refine ⟨(c :: u).dropLast, (c :: u).getLast hne, (dropLast_append_getLast hne).symm, ?_⟩
    exact (scalar_cases (hall _ (getLast_mem hne))).1
  cases v with
  | obj fields =>
    obtain ⟨mid, rfl⟩ := h
    exact hframe (by decide) (by decide) (by decide)
  | arr items =>
    obtain ⟨mid, rfl⟩ := h
    exact hframe (by decide) (by decide) (by decide)
  | str s =>
    obtain ⟨mid, rfl⟩ := h
    exact hframe (by decide) (by decide) (by decide)
  | null => exact hscalar h
  | bool b => exact hscalar h
  | num n => exact hscalar h

theorem trim_document (hspace : ∀ c ∈ ws ++ ws', isSpace c = true) (hcore : Str.Tight core) :
    Str.trim (ws ++ (core ++ ws')) = core := by
  have hws : Str.trimStart ws = [] :=
    dropWhile_eq_nil_iff.2 fun c hc => (isSpace_cases (hspace c (mem_append_left _ hc))).1
  have hws' : Str.trimEnd ws' = [] :=
    rdropWhile_eq_nil_iff.2 fun c hc =>
      (isSpace_cases (hspace c (mem_append_right _ hc))).1
  rw [Str.trim_append hcore, hws, hws', nil_append, append_nil]

theorem getElem?_document {i : Nat} {d : Char} (hspace : ∀ c ∈ ws ++ ws', isSpace c = true)
    (hd : isSpace d = false) (h : (ws ++ (core ++ ws'))[i]? = some d) :
    ∃ k, i = ws.length + k ∧ core[k]? = some d := by
  have hnot : d ∉ ws ++ ws' := fun hmem => by
    rw [hspace d hmem] at hd
    cases hd
  rcases Nat.lt_or_ge i ws.length with hlt | hge
  · rw [getElem?_append_left hlt] at h
    exact absurd (mem_append_left _ (mem_of_getElem? h)) hnot
  rw [getElem?_append_right hge] at h
  rcases Nat.lt_or_ge (i - ws.length) core.length with hlt | hge'
  · rw [getElem?_append_left hlt] at h
    exact ⟨i - ws.length, by omega, h⟩
  · rw [getElem?_append_right hge'] at h
    exact absurd (mem_append_right _ (mem_of_getElem? h)) hnot

theorem cut_document_iff (hspace : ∀ c ∈ ws ++ ws', isSpace c = true) :
    Cut (ws ++ (core ++ ws')) ↔ Cut core := by
  have hopen : ∀ {o : Char}, isOpen o = true → isSpace o = false := by
    intro o ho
    by_contra hsp
    rw [(isSpace_cases (by simpa using hsp)).2.1] at ho
    cases ho
  have hclose : ∀ {c : Char}, isClose c = true → isSpace c = false := by
    intro c hc
    by_contra hsp
    rw [(isSpace_cases (by simpa using hsp)).2.2] at hc
    cases hc
  constructor
  · rintro ⟨i, j, o, c, hij, ho, ho', hc, hc'⟩
    obtain ⟨k, rfl, hk⟩ := getElem?_document hspace (hopen ho') ho
    obtain ⟨l, rfl, hl⟩ := getElem?_document hspace (hclose hc') hc
    exact ⟨k, l, o, c, by omega, hk, ho', hl, hc'⟩
  · rintro ⟨i, j, o, c, hij, ho, ho', hc, hc'⟩
    have hshift : ∀ {k : Nat} {d : Char}, core[k]? = some d →
        (ws ++ (core ++ ws'))[ws.length + k]? = some d := by
      intro k d hk
      rw [getElem?_append_right (by omega), Nat.add_sub_cancel_left,
        getElem?_append_left (List.getElem?_eq_some_iff.1 hk).1, hk]
    exact ⟨_, _, o, c, Nat.add_lt_add_left hij _, hshift ho, ho', hshift hc, hc'⟩

theorem extractJsonBlob_document (hspace : ∀ c ∈ ws ++ ws', isSpace c = true)
    (hcore : Spelled v core) : extractJsonBlob (ws ++ (core ++ ws')) = bracketed core := by
  obtain ⟨htight, hfence⟩ := tight_of_spelled hcore
  rw [extractJsonBlob_eq, trim_document hspace htight, fencedBody_of_not_prefix hfence,
    Option.getD_none]

theorem bracketed_document {t : Text} (h : Spelled v t) (hcut : ¬ ((∃ s, v = .str s) ∧ Cut t)) :
    bracketed t = t := by
  have hframe : ∀ {t : Text}, Bracketed t → bracketed t = t := by
    intro t ht
    have hnil : Prose [] := fun c hc => absurd hc not_mem_nil
    have h := bracketed_append hnil hnil ht
    rwa [append_nil] at h
  have hscalar : Json.Scalar t → bracketed t = t := by
    rintro ⟨-, hall⟩
    refine bracketed_of_not_cut ?_
    rintro ⟨i, -, o, -, -, ho, hopen, -⟩
    rw [(scalar_cases (hall o (mem_of_getElem? ho))).2.2] at hopen
    cases hopen
  cases v with
  | obj fields =>
    obtain ⟨mid, rfl⟩ := h
    exact hframe ⟨_, mid, _, rfl, by decide, by decide⟩
  | arr items =>
    obtain ⟨mid, rfl⟩ := h
    exact hframe ⟨_, mid, _, rfl, by decide, by decide⟩
  | str s => exact bracketed_of_not_cut fun h => hcut ⟨⟨s, rfl⟩, h⟩
  | null => exact hscalar h
  | bool b => exact hscalar h
  | num n => exact hscalar h

theorem not_str_of_isOpen {J : JsonText} (hJ : ReadsDocuments J) {o : Char} {u s : Text}
    (ho : isOpen o = true) : J.fromStr (o :: u) ≠ .ok (.str s) := by
  intro hv
  obtain ⟨ws, core, ws', ht, hspace, ⟨mid, rfl⟩, -⟩ := hJ _ _ hv
  cases ws with
  | nil =>
    obtain rfl : o = '"' := (List.cons.inj ht).1
    cases ho
  | cons d ws =>
    obtain rfl : o = d := (List.cons.inj ht).1
    rw [(isSpace_cases (hspace o (by simp))).2.1] at ho
    cases ho

def stringSchema : Validator
  | .str _ => []
  | _ => ["is not of type \"string\"".toList]

/-- **When a plain JSON answer is judged as it is**: unless it is a string in which an opening
bracket or brace comes before a closing one. -/
theorem judged_iff {J : JsonText} (hJ : ReadsDocuments J) {raw : Text} {v : Json}
    (hv : J.fromStr raw = .ok v) :
    (∀ rule : SchemaRule, (validateResponseText J rule raw).passed = true ↔ rule.schema v = []) ↔
      ¬ ((∃ s, v = .str s) ∧ Cut raw) := by
  obtain ⟨ws, core, ws', rfl, hspace, hspelled, hcore⟩ := hJ raw v hv
  have hblob := extractJsonBlob_document hspace hspelled
  rw [cut_document_iff hspace]
  constructor
  · rintro hjudged ⟨⟨s, rfl⟩, hcut⟩
    obtain ⟨o, u, hbracketed, ho⟩ := bracketed_of_cut hcut
    -- the schema of strings accepts the document, but not what was cut out of it
    have hpassed := (hjudged ⟨[], none, stringSchema, []⟩).2 rfl
    unfold validateResponseText at hpassed
    rw [hblob, hbracketed] at hpassed
    dsimp only at hpassed
    cases hparse : J.fromStr (o :: u) with
    | error message =>
      rw [hparse] at hpassed
      cases hpassed
    | ok w =>
      rw [hparse] at hpassed
      cases w with
      | str s' => exact not_str_of_isOpen hJ ho hparse
      | null => cases hpassed
      | bool b => cases hpassed
      | num n => cases hpassed
      | arr items => cases hpassed
      | obj fields => cases hpassed
  · intro hcut rule
    unfold validateResponseText
    rw [hblob, bracketed_document hspelled hcut]
    dsimp only
    rw [hcore]
    exact List.isEmpty_iff

def spacedJson : JsonText := ⟨Json.parseSpaced, Json.print⟩

theorem fromStr_spacedJson (t : Text) : spacedJson.fromStr t = Json.parse (Json.stripSpace t) := rfl

theorem readsDocuments_spacedJson : ReadsDocuments spacedJson := by
  intro t v hv
  rw [fromStr_spacedJson] at hv
  obtain ⟨ws, ws', ht, hspace⟩ := Json.stripSpace_split t
  refine ⟨ws, Json.stripSpace t, ws', ht, hspace, Json.spelled_of_parse hv, ?_⟩
  rw [fromStr_spacedJson, Json.stripSpace_stripSpace, hv]

/-- An array with white space around it passes the schema that accepts everything. -/
theorem judged_spaced_array :
    (validateResponseText spacedJson ⟨[], none, fun _ => [], []⟩ " [true] ".toList).passed =
      true := by
  have hprint : Json.stripSpace " [true] ".toList = Json.print (.arr [.bool true]) := by
    decide +kernel
  have hparse : spacedJson.fromStr " [true] ".toList = .ok (.arr [.bool true]) := by
    rw [fromStr_spacedJson, hprint]
    exact Json.parse_print (by decide +kernel)
  exact ((judged_iff readsDocuments_spacedJson hparse).2 (by simp) _).2 rfl

/-- A string in which brackets stand is judged as an array. -/
theorem string_judged_as_array :
    spacedJson.fromStr "\"see [1]\"".toList = .ok (.str "see [1]".toList) ∧
      stringSchema (.str "see [1]".toList) = [] ∧
      (validateResponseText spacedJson ⟨[], none, stringSchema, []⟩ "\"see [1]\"".toList).passed =
        false := by
  have hprint : Json.stripSpace "\"see [1]\"".toList = Json.print (.str "see [1]".toList) := by
    decide +kernel
  have hparse : spacedJson.fromStr "\"see [1]\"".toList = .ok (.str "see [1]".toList) := by
    rw [fromStr_spacedJson, hprint]
    exact Json.parse_print (by decide +kernel)
  exact ⟨hparse, rfl, by decide +kernel⟩

end Nanoguard.Guard
