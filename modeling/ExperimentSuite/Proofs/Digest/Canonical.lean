import ExperimentSuite.Digest.Sha256
import ExperimentSuite.Proofs.Json.Compact
import ExperimentSuite.Proofs.Text.Utf8
import ExperimentSuite.Suite.Compilation

/-!
# Which documents have one digest

A digest determines the hash that it shows, so that two documents have one
digest exactly if they have one compact text or their texts collide. Documents
that agree have one text only if they are one document: the digest keeps the
sign of a float zero, which agreement ignores. The same holds for the run lists
of compiled suites.
-/

namespace ExperimentSuite

namespace Sha256

variable {x y : UInt32} {s t : State}

/-- Two different messages with one hash. -/
def Collide (message other : List UInt8) : Prop :=
  message ≠ other ∧ hash message = hash other

theorem digitChar_injOn :
    ∀ m < 16, ∀ n < 16, Nat.digitChar m = Nat.digitChar n → m = n := by
  decide

/-- Numbers of the same number of hexadecimal digits are equal if their digits are. -/
theorem eq_of_digits {k m n : Nat} (hm : m < 16 ^ k) (hn : n < 16 ^ k)
    (h : ∀ i < k, m / 16 ^ i % 16 = n / 16 ^ i % 16) : m = n := by
  induction k generalizing m n with
  | zero => omega
  | succ k ih =>
      have hlast : m % 16 = n % 16 := by simpa using h 0 (by omega)
      have hrest : m / 16 = n / 16 := by
        refine ih (by omega) (by omega) fun i hi => ?_
        rw [Nat.div_div_eq_div_mul, Nat.div_div_eq_div_mul, ← Nat.pow_succ']
        exact h (i + 1) (by omega)
      omega

/-- A word is determined by its digits. -/
theorem wordHex_injective : Function.Injective wordHex := by
  intro x y h
  apply UInt32.toNat_inj.mp
  refine eq_of_digits (k := 8) x.toNat_lt y.toNat_lt fun i hi => ?_
  have hchars := List.map_eq_map_iff.mp (String.ofList_injective h) (7 - i)
    (List.mem_range.mpr (by omega))
  have hdigit := digitChar_injOn _ (Nat.mod_lt _ (by decide)) _ (Nat.mod_lt _ (by decide)) hchars
  rwa [show 7 - (7 - i) = i by omega] at hdigit

theorem length_wordHex (x : UInt32) : (wordHex x).toList.length = 8 := by
  simp [wordHex]

theorem wordHex_ne_empty (x : UInt32) : wordHex x ≠ "" := by
  intro h
  have hlength := length_wordHex x
  rw [h] at hlength
  cases hlength

/-- Words are determined by their digits in a row. -/
theorem flatMap_wordHex_injective :
    Function.Injective fun words : List UInt32 => words.flatMap fun x => (wordHex x).toList := by
  intro words others h
  dsimp only at h
  induction words generalizing others with
  | nil =>
      cases others with
      | nil => rfl
      | cons y others => simp [wordHex_ne_empty] at h
  | cons x words ih =>
      cases others with
      | nil => simp [wordHex_ne_empty] at h
      | cons y others =>
          obtain ⟨hhead, htail⟩ := List.append_inj h (by rw [length_wordHex, length_wordHex])
          rw [wordHex_injective (String.toList_injective hhead), ih htail]

/-- A state is determined by its digits. -/
theorem State.hex_injective : Function.Injective State.hex := by
  intro s t h
  have hwords : [s.a, s.b, s.c, s.d, s.e, s.f, s.g, s.h] =
      [t.a, t.b, t.c, t.d, t.e, t.f, t.g, t.h] := by
    apply flatMap_wordHex_injective
    simpa [State.hex, List.flatMap_map] using congrArg String.toList h
  cases s
  cases t
  simpa using hwords

end Sha256

namespace Document

variable {d d' : Document}

theorem hash_eq_of_digest_eq (h : d.digest = d'.digest) :
    Sha256.hash (Text.bytes d.json) = Sha256.hash (Text.bytes d'.json) := by
  have hchars := congrArg String.toList h
  rw [digest, digest, String.toList_append, String.toList_append] at hchars
  exact Sha256.State.hex_injective (String.toList_injective (List.append_cancel_left hchars))

/-- Documents have one digest exactly if they have one compact text or their texts collide. -/
theorem digest_eq_iff (d d' : Document) :
    d.digest = d'.digest ↔
      d.json = d'.json ∨ Sha256.Collide (Text.bytes d.json) (Text.bytes d'.json) := by
  constructor
  · intro h
    by_cases hjson : d.json = d'.json
    · exact .inl hjson
    · exact .inr ⟨fun hbytes => hjson (Text.bytes_injective hbytes), hash_eq_of_digest_eq h⟩
  · rintro (hjson | ⟨-, hhash⟩)
    · rw [digest, digest, hjson]
    · exact congrArg (fun s : Sha256.State => "sha256:" ++ s.hex) hhash

end Document

namespace CompiledSuite

open Document

variable {s t : CompiledSuite}

theorem document_eq_iff : s.document = t.document ↔ s.runs = t.runs := by
  rw [document, document, map.injEq]
  refine ⟨fun h => ?_, congrArg _⟩
  refine List.map_injective_iff.mpr ?_ h
  rintro ⟨name, runs⟩ ⟨other, otherRuns⟩ heq
  simpa using heq

/-- Documents that agree have one digest exactly if they are one document, with the same sign at
every float zero, or their texts collide. So they have one digest if none of them has a negative
zero. Compiled suites whose run lists agree have one digest exactly if these are the same run lists,
or the texts of the lists collide. -/
theorem digest_eq_iff_of_agrees {d d' : Document} (h : d.agrees d' = true) :
    (d.digest = d'.digest ↔
        d = d' ∨ Sha256.Collide (Text.bytes d.json) (Text.bytes d'.json)) ∧
      (d.unsigned = d → d'.unsigned = d' → d.digest = d'.digest) ∧
      ∀ s t : CompiledSuite, s.document = d → t.document = d' →
        (s.digest = t.digest ↔
          s.runs = t.runs ∨ Sha256.Collide (Text.bytes d.json) (Text.bytes d'.json)) := by
  have hdigest : d.digest = d'.digest ↔
      d = d' ∨ Sha256.Collide (Text.bytes d.json) (Text.bytes d'.json) := by
    rw [digest_eq_iff, Json.json_eq_iff_of_agrees h]
  refine ⟨hdigest, fun hd hd' => hdigest.mpr (.inl ?_), ?_⟩
  · rw [← hd, ← hd', (agrees_iff d d').mp h]
  · rintro s t rfl rfl
    rw [← document_eq_iff]
    exact hdigest

/-- A suite with one run, which sets one field. -/
def loadSuite (load : Document) : CompiledSuite where
  suite := "load"
  runs := [("exp", [.map [("load", load)]])]

/-- The suite with a load of zero. -/
def idleSuite : CompiledSuite :=
  loadSuite (.num (.float .zero))

/-- The same suite, but with the negative zero. -/
def mirroredSuite : CompiledSuite :=
  loadSuite (.num (.float .negativeZero))

theorem agrees_mirroredSuite : idleSuite.document.agrees mirroredSuite.document = true := by
  decide

/-- The hashes of the two suites differ in their first word. -/
theorem hash_mirroredSuite :
    Sha256.hash (Text.bytes idleSuite.document.json) ≠
      Sha256.hash (Text.bytes mirroredSuite.document.json) := by
  have hword : (Sha256.hash (Text.bytes idleSuite.document.json)).a ≠
      (Sha256.hash (Text.bytes mirroredSuite.document.json)).a := by
    decide +kernel
  exact fun hhash => hword (congrArg Sha256.State.a hhash)

/-- The two suites agree, but they are two suites whose texts do not collide. -/
theorem digest_mirroredSuite :
    idleSuite.document.agrees mirroredSuite.document = true ∧
      (idleSuite.runs ≠ mirroredSuite.runs ∧
        ¬ Sha256.Collide (Text.bytes idleSuite.document.json)
          (Text.bytes mirroredSuite.document.json)) ∧
      idleSuite.document.digest ≠ mirroredSuite.document.digest ∧
      idleSuite.digest ≠ mirroredSuite.digest := by
  obtain ⟨hdocuments, -, hsuites⟩ := digest_eq_iff_of_agrees agrees_mirroredSuite
  have hruns : idleSuite.runs ≠ mirroredSuite.runs := by
    simp [idleSuite, mirroredSuite, loadSuite, FiniteFloat.zero, FiniteFloat.negativeZero]
  have hcollide : ¬ Sha256.Collide (Text.bytes idleSuite.document.json)
      (Text.bytes mirroredSuite.document.json) := fun h => hash_mirroredSuite h.2
  refine ⟨agrees_mirroredSuite, ⟨hruns, hcollide⟩, fun h => ?_, fun h => ?_⟩
  · exact (hdocuments.mp h).elim (fun heq => hruns (document_eq_iff.mp heq)) hcollide
  · exact ((hsuites idleSuite mirroredSuite rfl rfl).mp h).elim hruns hcollide

/-- Documents that agree need not have one digest, and neither need suites whose run lists agree. -/
theorem not_digest_eq_of_agrees :
    (¬ ∀ d d' : Document, d.Ordered → d'.Ordered → d.agrees d' = true → d.digest = d'.digest) ∧
      ¬ ∀ s t : CompiledSuite, s.document.Ordered → t.document.Ordered →
        s.document.agrees t.document = true → s.digest = t.digest := by
  have hidle : idleSuite.document.Ordered := by decide
  have hmirrored : mirroredSuite.document.Ordered := by decide
  refine ⟨fun hall => hash_mirroredSuite ?_, fun hall => hash_mirroredSuite ?_⟩
  · exact hash_eq_of_digest_eq (hall _ _ hidle hmirrored agrees_mirroredSuite)
  · exact hash_eq_of_digest_eq (hall _ _ hidle hmirrored agrees_mirroredSuite)

end CompiledSuite

end ExperimentSuite
