import ExperimentSuite.Proofs.Template.Reader

/-!
# Expressions at the end of an output

The reader of expressions is faithful at every depth: what it reads in front of
the end of an output it reads from the tokens before that end alone, and every
plus and minus among them is an operation of the expression.
-/

namespace ExperimentSuite

namespace Template

namespace Expression

open Reader Token

variable {operand simple nested bare : Reader Expression} {ts : List Token} {base : Nat}

theorem faithful_denied (ho : Faithful signs operand) : Faithful signs (denied operand) := by
  intro ts
  induction ts with
  | nil => exact ho []
  | cons t rest ih =>
      cases t with
      | name n =>
          rw [beforeEnd_cons rfl, denied, denied]
          split
          · refine .cons rfl (ih.bind fun e rest _ _ => ?_)
            exact keeps_ok rfl
          · exact ho (.name n :: rest)
      | _ => exact ho _

theorem faithful_negated (ho : Faithful signs operand) : Faithful signs (negated operand) := by
  intro ts
  induction ts with
  | nil => exact ho []
  | cons t rest ih =>
      cases t with
      | sign s =>
          rw [beforeEnd_cons rfl, negated, negated]
          split
          · next heq =>
              subst heq
              refine .cons rfl ((ih.shift _).bind fun e rest _ _ => ?_)
              exact keeps_ok (Nat.add_comm _ _)
          · exact ho (.sign s :: rest)
      | _ => exact ho _

/-- A comparison that is found has read inner tokens without a plus or minus. -/
theorem comparison?_eq_some {c : Comparison} {rest : List Token}
    (h : comparison? ts = some (c, rest)) :
    ∃ read, ts = read ++ rest ∧ read ≠ [] ∧ (∀ t ∈ read, t.isInner = true) ∧ signsOf read = 0 ∧
      comparison? (beforeEnd ts) = some (c, beforeEnd rest) := by
  have hone : ∀ t, ts = t :: rest → t.isInner = true → t.signs = 0 →
      comparison? (t :: beforeEnd rest) = some (c, beforeEnd rest) →
      ∃ read, ts = read ++ rest ∧ read ≠ [] ∧ (∀ t ∈ read, t.isInner = true) ∧
        signsOf read = 0 ∧ comparison? (beforeEnd ts) = some (c, beforeEnd rest) := by
    rintro t rfl hinner hsigns hshort
    refine ⟨[t], rfl, by simp, by simpa using hinner, by simpa [signsOf] using hsigns, ?_⟩
    rw [beforeEnd_cons hinner]
    exact hshort
  unfold comparison? at h
  split at h
  case h_8 =>
    cases h
    exact ⟨[.name "not", .name "in"], rfl, by simp, by simp [isInner], rfl, rfl⟩
  case h_9 => cases h
  all_goals
    cases h
    exact hone _ rfl rfl rfl rfl

/-- No comparison begins where none began before the tokens stopped. -/
theorem comparison?_beforeEnd_eq_none (h : comparison? ts = none) :
    comparison? (beforeEnd ts) = none := by
  cases hshort : comparison? (beforeEnd ts) with
  | none => rfl
  | some found =>
      unfold comparison? at hshort
      split at hshort
      case h_8 _ heq =>
        obtain ⟨rest, rfl, hrest⟩ := exists_eq_cons_of_beforeEnd heq
        obtain ⟨rest, rfl, -⟩ := exists_eq_cons_of_beforeEnd hrest
        cases h
      case h_9 => cases hshort
      all_goals
        next heq =>
          obtain ⟨rest, rfl, -⟩ := exists_eq_cons_of_beforeEnd heq
          cases h

theorem comparisons_of_none {fuel : Nat} {read : List (Comparison × Expression)}
    (h : comparison? ts = none) :
    comparisons operand fuel read ts = .ok (read.reverse, ts) := by
  unfold comparisons
  split
  · next heq =>
      rw [h] at heq
      cases heq
  · rfl

theorem comparisons_of_some {fuel : Nat} {read : List (Comparison × Expression)} {c : Comparison}
    {rest : List Token} (h : comparison? ts = some (c, rest)) :
    comparisons operand (fuel + 1) read ts =
      operand rest >>= fun p => comparisons operand fuel ((c, p.1) :: read) p.2 := by
  rw [comparisons.eq_def, h]

/-- Comparisons are read alike as long as the fuel lasts. -/
theorem keeps_comparisons (ho : Faithful signs operand) (fuel fuel' : Nat)
    (read : List (Comparison × Expression)) (ts : List Token) (hfuel : ts.length ≤ fuel)
    (hfuel' : (beforeEnd ts).length ≤ fuel') :
    Keeps (total (fun c => c.2.signs) read) (total fun c => c.2.signs) ts
      (comparisons operand fuel read ts) (comparisons operand fuel' read (beforeEnd ts)) := by
  induction fuel generalizing fuel' read ts with
  | zero =>
      obtain rfl := List.length_eq_zero_iff.mp (Nat.le_zero.mp hfuel)
      rw [beforeEnd, comparisons_of_none rfl, comparisons_of_none rfl]
      exact keeps_ok (total_reverse read)
  | succ fuel ih =>
      cases hc : comparison? ts with
      | none =>
          rw [comparisons_of_none hc, comparisons_of_none (comparison?_beforeEnd_eq_none hc)]
          exact keeps_ok (total_reverse read)
      | some found =>
          obtain ⟨c, rest⟩ := found
          obtain ⟨first, rfl, hne, hinner, hsigns, hc'⟩ := comparison?_eq_some hc
          have hpos := List.length_pos_of_ne_nil hne
          rw [beforeEnd_append hinner, List.length_append] at hfuel'
          rw [List.length_append] at hfuel
          obtain ⟨more, rfl⟩ : ∃ more, fuel' = more + 1 := ⟨fuel' - 1, by omega⟩
          rw [comparisons_of_some hc, comparisons_of_some hc']
          apply Keeps.append hinner
          rw [hsigns]
          refine (ho.keeps _ rest).bind fun e rest' hle hle' => ?_
          rw [Nat.add_zero, ← total_cons (w := fun c : Comparison × Expression => c.2.signs) (c, e)]
          exact ih more ((c, e) :: read) rest' (by omega) (by omega)

theorem faithful_compared (ho : Faithful signs operand) : Faithful signs (compared operand) := by
  intro ts
  refine (ho ts).bind fun first rest _ _ => ?_
  have hrest := keeps_comparisons ho rest.length (beforeEnd rest).length [] rest (Nat.le_refl _)
    (Nat.le_refl _)
  refine (hrest.shift first.signs).bind fun others rest' _ _ => ?_
  apply keeps_ok
  cases others with
  | nil => rfl
  | cons c others =>
      rw [List.isEmpty_cons, if_neg (by decide), signs, signsOfComparisons_eq_sum]
      rfl

/-- Strings that stand next to each other are read up to the end of the output. -/
theorem adjacentStrings_eq (ts : List Token) :
    ∃ read rest, ts = read ++ rest ∧ (∀ t ∈ read, t.isInner = true) ∧ signsOf read = 0 ∧
      (adjacentStrings ts).2 = rest ∧
      adjacentStrings (beforeEnd ts) = ((adjacentStrings ts).1, beforeEnd rest) := by
  induction ts with
  | nil => exact ⟨[], [], rfl, by simp, rfl, rfl, rfl⟩
  | cons t rest ih =>
      cases t with
      | str s =>
          obtain ⟨read, rest', rfl, hinner, hsigns, hrest, hshort⟩ := ih
          refine ⟨.str s :: read, rest', rfl, List.forall_mem_cons.mpr ⟨rfl, hinner⟩, ?_, hrest, ?_⟩
          · rw [← hsigns]
            simp [signsOf, Token.signs]
          · rw [beforeEnd_cons rfl, adjacentStrings, hshort, adjacentStrings]
      | closeOutput => exact ⟨[], _, rfl, by simp, rfl, rfl, rfl⟩
      | _ => exact ⟨[], _, rfl, by simp, rfl, rfl, rfl⟩

theorem faithful_entry (hn : Faithful signs nested) :
    Faithful (fun e => e.1.signs + e.2.signs) (entry nested) := by
  intro ts
  refine (hn ts).bind fun key rest _ _ => ?_
  refine (keeps_sign .colon).bind fun _ rest _ _ => ?_
  refine (hn.keeps _ rest).bind fun value rest _ _ => ?_
  exact keeps_ok rfl

theorem keeps_parenthesized (hn : Faithful signs nested) :
    Faithful signs (parenthesized nested) := by
  intro ts
  rw [parenthesized, parenthesized, isNext_beforeEnd]
  split
  · next hnext =>
      rw [drop_beforeEnd hnext]
      apply keeps_drop hnext
      exact keeps_ok rfl
  · refine (hn ts).bind fun first rest _ _ => ?_
    dsimp only
    rw [isNext_beforeEnd]
    split
    · have hrest := keeps_separated hn .closeParen rfl (rest.length + 1)
        ((beforeEnd rest).length + 1) [first] rest (by simp)
      refine hrest.bind fun items rest' _ _ => ?_
      exact keeps_ok (by rw [signs, signsOfItems_eq_sum]; rfl)
    · refine (keeps_sign .closeParen).bind fun _ rest' _ _ => ?_
      exact keeps_ok rfl

theorem faithful_primary (hn : Faithful signs nested) : Faithful signs (primary nested) := by
  intro ts
  cases ts with
  | nil => exact keeps_fail
  | cons t rest =>
      cases t with
      | name n =>
          rw [beforeEnd_cons rfl, primary, primary]
          split
          · exact .cons rfl (keeps_ok rfl)
          · exact .cons rfl (keeps_ok rfl)
      | str s =>
          obtain ⟨read, rest', rfl, hinner, hsigns, hrest, hshort⟩ := adjacentStrings_eq rest
          rw [beforeEnd_cons rfl, primary, primary, hshort]
          refine .cons rfl (.append hinner ?_)
          rw [hsigns]
          dsimp only
          rw [hrest]
          exact keeps_ok rfl
      | int n => exact .cons rfl (keeps_ok rfl)
      | float x => exact .cons rfl (keeps_ok rfl)
      | sign s =>
          cases s with
          | openParen => exact .cons rfl (keeps_parenthesized hn rest)
          | openBracket =>
              refine .cons rfl
                ((keeps_enclosed hn .closeBracket rfl rest).bind fun items rest' _ _ => ?_)
              exact keeps_ok (by rw [signs, signsOfItems_eq_sum]; rfl)
          | openBrace =>
              have hentries := keeps_enclosed (faithful_entry hn) .closeBrace rfl rest
              refine .cons rfl (hentries.bind fun entries rest' _ _ => ?_)
              exact keeps_ok (by rw [signs, signsOfEntries_eq_sum]; rfl)
          | _ => exact keeps_fail
      | fault f => exact keeps_fail
      | _ => exact keeps_fail

/-- Whether a token goes on with a simple expression. -/
def beginsSuffix : Token → Bool
  | .sign .dot | .sign .openBracket | .sign .openParen => true
  | _ => false

theorem suffixes_of_head? {fuel : Nat} {e : Expression}
    (h : ∀ t ∈ ts.head?, beginsSuffix t = false) : suffixes nested fuel e ts = .ok (e, ts) := by
  unfold suffixes
  split
  · cases h _ rfl
  · cases h _ rfl
  · cases h _ rfl
  · cases h _ rfl
  · cases h _ rfl
  · rfl

/-- What follows a simple expression is read alike as long as the fuel lasts. -/
theorem keeps_suffixes (hn : Faithful signs nested) (fuel fuel' : Nat) (e : Expression)
    (ts : List Token) (hfuel : ts.length ≤ fuel) (hfuel' : (beforeEnd ts).length ≤ fuel') :
    Keeps e.signs signs ts (suffixes nested fuel e ts)
      (suffixes nested fuel' e (beforeEnd ts)) := by
  induction fuel generalizing fuel' e ts with
  | zero =>
      obtain rfl := List.length_eq_zero_iff.mp (Nat.le_zero.mp hfuel)
      rw [beforeEnd, suffixes_of_head? (by simp), suffixes_of_head? (by simp)]
      exact keeps_ok rfl
  | succ fuel ih =>
      by_cases hhead : ∀ t ∈ ts.head?, beginsSuffix t = false
      · rw [suffixes_of_head? hhead, suffixes_of_head? fun t ht => hhead t (head?_beforeEnd ht)]
        exact keeps_ok rfl
      · cases ts with
        | nil => simp at hhead
        | cons t rest =>
            have hbegins : beginsSuffix t = true := by simpa using hhead
            rw [List.length_cons] at hfuel
            cases t with
            | sign s =>
                rw [beforeEnd_cons rfl, List.length_cons] at hfuel'
                rw [beforeEnd_cons rfl]
                obtain ⟨more, rfl⟩ : ∃ more, fuel' = more + 1 := ⟨fuel' - 1, by omega⟩
                cases s with
                | dot =>
                    cases rest with
                    | nil => exact keeps_failAt []
                    | cons t rest =>
                        rw [List.length_cons] at hfuel
                        cases t with
                        | name n =>
                            rw [beforeEnd_cons rfl, List.length_cons] at hfuel'
                            exact .cons rfl (.cons rfl (ih more (.field e n) rest (by omega)
                              (by omega)))
                        | int n =>
                            rw [beforeEnd_cons rfl, List.length_cons] at hfuel'
                            exact .cons rfl (.cons rfl (ih more (.item e (.constant (.int n))) rest
                              (by omega) (by omega)))
                        | _ => exact keeps_failAt (_ :: rest)
                | openBracket =>
                    refine .cons rfl ((hn.keeps _ rest).bind fun key rest' hle hle' => ?_)
                    refine (keeps_sign .closeBracket).bind fun _ rest'' hle₂ hle₂' => ?_
                    exact ih more (.item e key) rest'' (by omega) (by omega)
                | openParen =>
                    have harguments := (keeps_enclosed hn .closeParen rfl rest).shift
                    refine .cons rfl ((harguments _).bind fun arguments rest' hle hle' => ?_)
                    have hsigns : (call e arguments).signs = e.signs + total signs arguments := by
                      rw [signs, signsOfItems_eq_sum]
                      rfl
                    exact hsigns ▸ ih more (.call e arguments) rest' (by omega) (by omega)
                | _ => cases hbegins
            | _ => cases hbegins

theorem faithful_operand (hs : Faithful signs simple) (hn : Faithful signs nested) :
    Faithful signs (Expression.operand simple nested) := by
  apply faithful_negated
  intro ts
  refine (hs ts).bind fun e rest _ _ => ?_
  exact keeps_suffixes hn _ _ e rest (Nat.le_refl _) (Nat.le_refl _)

theorem faithful_optionalArguments (hn : Faithful signs nested) :
    Faithful (total signs) (optionalArguments nested) := by
  intro ts
  rw [optionalArguments, optionalArguments, isNext_beforeEnd]
  split
  · next hnext =>
      rw [drop_beforeEnd hnext]
      exact keeps_drop hnext (keeps_enclosed hn .closeParen rfl _)
  · exact keeps_ok rfl

theorem beginsArgument_beforeEnd : beginsArgument (beforeEnd ts) = beginsArgument ts := by
  cases ts with
  | nil => rfl
  | cons t rest => cases t <;> rfl

theorem faithful_testArguments (hb : Faithful signs bare) (hn : Faithful signs nested) :
    Faithful (total signs) (testArguments bare nested) := by
  intro ts
  rw [testArguments, testArguments, isNext_beforeEnd, beginsArgument_beforeEnd]
  split
  · next hnext =>
      rw [drop_beforeEnd hnext]
      exact keeps_drop hnext (keeps_enclosed hn .closeParen rfl _)
  · split
    · refine (hb ts).bind fun e rest _ _ => ?_
      exact keeps_ok rfl
    · exact keeps_ok rfl

/-- What stands after the word `is` and a `not`, if there is one. -/
def testedBehind (bare nested : Reader Expression) (e : Expression) (denied : Bool) :
    Reader Expression := fun tokens => do
  let (testName, rest) ← name tokens
  let (arguments, rest) ← testArguments bare nested rest
  return (if denied then .not (.test e testName arguments) else .test e testName arguments, rest)

theorem tested_not {e : Expression} :
    tested bare nested e (.name "not" :: ts) = testedBehind bare nested e true ts := rfl

theorem tested_of_head? {e : Expression} (h : ∀ t ∈ ts.head?, t ≠ .name "not") :
    tested bare nested e ts = testedBehind bare nested e false ts := by
  unfold tested
  split
  next heq =>
    split at heq
    · exact absurd rfl (h _ rfl)
    · cases heq
      rfl

theorem keeps_testedBehind (hb : Faithful signs bare) (hn : Faithful signs nested)
    (e : Expression) (denied : Bool) (ts : List Token) :
    Keeps e.signs signs ts (testedBehind bare nested e denied ts)
      (testedBehind bare nested e denied (beforeEnd ts)) := by
  refine keeps_name.bind fun testName rest _ _ => ?_
  refine ((faithful_testArguments hb hn).keeps _ rest).bind fun arguments rest' _ _ => ?_
  have hsigns : (test e testName arguments).signs = e.signs + total signs arguments := by
    rw [signs, signsOfItems_eq_sum]
    rfl
  cases denied with
  | false => exact keeps_ok hsigns
  | true => exact keeps_ok hsigns

theorem keeps_tested (hb : Faithful signs bare) (hn : Faithful signs nested) (e : Expression)
    (ts : List Token) :
    Keeps e.signs signs ts (tested bare nested e ts) (tested bare nested e (beforeEnd ts)) := by
  by_cases hhead : ∀ t ∈ ts.head?, t ≠ .name "not"
  · rw [tested_of_head? hhead, tested_of_head? fun t ht => hhead t (head?_beforeEnd ht)]
    exact keeps_testedBehind hb hn e false ts
  · cases ts with
    | nil => simp at hhead
    | cons t rest =>
        obtain rfl : t = .name "not" := by simpa using hhead
        rw [beforeEnd_cons rfl, tested_not, tested_not]
        exact .cons rfl (keeps_testedBehind hb hn e true rest)

/-- Whether a token begins a filter or a test. -/
def beginsFilter : Token → Bool
  | .sign .bar => true
  | .name n => n == "is"
  | _ => false

theorem filters_of_head? {fuel : Nat} {e : Expression}
    (h : ∀ t ∈ ts.head?, beginsFilter t = false) : filters bare nested fuel e ts = .ok (e, ts) := by
  unfold filters
  split
  · cases h _ rfl
  · cases h _ rfl
  · rfl

/-- Filters and tests are read alike as long as the fuel lasts. -/
theorem keeps_filters (hb : Faithful signs bare) (hn : Faithful signs nested) (fuel fuel' : Nat)
    (e : Expression) (ts : List Token) (hfuel : ts.length ≤ fuel)
    (hfuel' : (beforeEnd ts).length ≤ fuel') :
    Keeps e.signs signs ts (filters bare nested fuel e ts)
      (filters bare nested fuel' e (beforeEnd ts)) := by
  induction fuel generalizing fuel' e ts with
  | zero =>
      obtain rfl := List.length_eq_zero_iff.mp (Nat.le_zero.mp hfuel)
      rw [beforeEnd, filters_of_head? (by simp), filters_of_head? (by simp)]
      exact keeps_ok rfl
  | succ fuel ih =>
      by_cases hhead : ∀ t ∈ ts.head?, beginsFilter t = false
      · rw [filters_of_head? hhead, filters_of_head? fun t ht => hhead t (head?_beforeEnd ht)]
        exact keeps_ok rfl
      · cases ts with
        | nil => simp at hhead
        | cons t rest =>
            have hbegins : beginsFilter t = true := by simpa using hhead
            rw [List.length_cons] at hfuel
            cases t with
            | sign s =>
                rw [beforeEnd_cons rfl, List.length_cons] at hfuel'
                rw [beforeEnd_cons rfl]
                obtain ⟨more, rfl⟩ : ∃ more, fuel' = more + 1 := ⟨fuel' - 1, by omega⟩
                cases s with
                | bar =>
                    refine .cons rfl (keeps_name.bind fun filterName rest' hle hle' => ?_)
                    have harguments := (faithful_optionalArguments hn).keeps e.signs rest'
                    refine harguments.bind fun arguments rest'' hle₂ hle₂' => ?_
                    have hsigns : (filter e filterName arguments).signs =
                        e.signs + total signs arguments := by
                      rw [signs, signsOfItems_eq_sum]
                      rfl
                    exact hsigns ▸ ih more (.filter e filterName arguments) rest'' (by omega)
                      (by omega)
                | _ => cases hbegins
            | name n =>
                rw [beforeEnd_cons rfl, List.length_cons] at hfuel'
                rw [beforeEnd_cons rfl]
                obtain ⟨more, rfl⟩ : ∃ more, fuel' = more + 1 := ⟨fuel' - 1, by omega⟩
                obtain rfl : n = "is" := beq_iff_eq.mp hbegins
                refine .cons rfl ((keeps_tested hb hn e rest).bind fun e' rest' hle hle' => ?_)
                exact ih more e' rest' (by omega) (by omega)
            | _ => cases hbegins

theorem faithful_filtered (hs : Faithful signs simple) (hn : Faithful signs nested) :
    Faithful signs (filtered simple nested) := by
  intro ts
  have ho := faithful_operand hs hn
  refine (ho ts).bind fun e rest _ _ => ?_
  exact keeps_filters ho hn _ _ e rest (Nat.le_refl _) (Nat.le_refl _)

theorem joins_power : Joins powerJoin? := by
  intro t join h
  unfold powerJoin? at h
  split at h <;> cases h
  exact ⟨rfl, fun _ _ => rfl⟩

theorem joins_product : Joins productJoin? := by
  intro t join h
  unfold productJoin? at h
  split at h <;> cases h
  all_goals exact ⟨rfl, fun _ _ => rfl⟩

theorem joins_text : Joins textJoin? := by
  intro t join h
  unfold textJoin? at h
  split at h <;> cases h
  exact ⟨rfl, fun _ _ => rfl⟩

theorem joins_sum : Joins sumJoin? := by
  intro t join h
  unfold sumJoin? at h
  split at h <;> cases h
  all_goals exact ⟨rfl, fun _ _ => rfl⟩

theorem joins_and : Joins andJoin? := by
  intro t join h
  unfold andJoin? at h
  split at h <;> cases h
  exact ⟨rfl, fun _ _ => rfl⟩

theorem joins_or : Joins orJoin? := by
  intro t join h
  unfold orJoin? at h
  split at h <;> cases h
  exact ⟨rfl, fun _ _ => rfl⟩

theorem faithful_operators (hs : Faithful signs simple) (hn : Faithful signs nested) :
    Faithful signs (operators simple nested) := by
  have hproducts := faithful_chain (faithful_chain (faithful_filtered hs hn) joins_power)
    joins_product
  have hsums := faithful_chain (faithful_chain hproducts joins_text) joins_sum
  have hcompared := faithful_denied (faithful_compared hsums)
  exact faithful_chain (faithful_chain hcompared joins_and) joins_or

theorem conditions_of_head? {fuel : Nat} {e : Expression}
    (h : ∀ t ∈ ts.head?, t ≠ .name "if") :
    conditional.conditions operand fuel e ts = .ok (e, ts) := by
  unfold conditional.conditions
  split
  · exact absurd rfl (h _ rfl)
  · rfl

/-- What stands after the condition of an expression: the alternative, if there is one, and further
conditions. -/
def conditionBehind (operand : Reader Expression) (fuel : Nat) (e condition : Expression) :
    Reader Expression := fun tokens =>
  match tokens with
  | .name "else" :: rest => do
      let (first, rest) ← operand rest
      let (no, rest) ← conditional.conditions operand fuel first rest
      conditional.conditions operand fuel (.choose condition e (some no)) rest
  | _ => conditional.conditions operand fuel (.choose condition e none) tokens

theorem conditions_if {fuel : Nat} {e : Expression} :
    conditional.conditions operand (fuel + 1) e (.name "if" :: ts) =
      operand ts >>= fun p => conditionBehind operand fuel e p.1 p.2 := by
  rw [conditional.conditions]
  rfl

theorem conditionBehind_of_head? {fuel : Nat} {e condition : Expression}
    (h : ∀ t ∈ ts.head?, t ≠ .name "else") :
    conditionBehind operand fuel e condition ts =
      conditional.conditions operand fuel (.choose condition e none) ts := by
  unfold conditionBehind
  split
  · exact absurd rfl (h _ rfl)
  · rfl

/-- Conditions are read alike as long as the fuel lasts. -/
theorem keeps_conditions (ho : Faithful signs operand) (fuel fuel' : Nat) (e : Expression)
    (ts : List Token) (hfuel : ts.length ≤ fuel) (hfuel' : (beforeEnd ts).length ≤ fuel') :
    Keeps e.signs signs ts (conditional.conditions operand fuel e ts)
      (conditional.conditions operand fuel' e (beforeEnd ts)) := by
  induction fuel generalizing fuel' e ts with
  | zero =>
      obtain rfl := List.length_eq_zero_iff.mp (Nat.le_zero.mp hfuel)
      rw [beforeEnd, conditions_of_head? (by simp), conditions_of_head? (by simp)]
      exact keeps_ok rfl
  | succ fuel ih =>
      by_cases hhead : ∀ t ∈ ts.head?, t ≠ .name "if"
      · rw [conditions_of_head? hhead, conditions_of_head? fun t ht => hhead t (head?_beforeEnd ht)]
        exact keeps_ok rfl
      · cases ts with
        | nil => simp at hhead
        | cons t rest =>
            obtain rfl : t = .name "if" := by simpa using hhead
            rw [List.length_cons] at hfuel
            rw [beforeEnd_cons rfl, List.length_cons] at hfuel'
            rw [beforeEnd_cons rfl]
            obtain ⟨more, rfl⟩ : ∃ more, fuel' = more + 1 := ⟨fuel' - 1, by omega⟩
            rw [conditions_if, conditions_if]
            refine .cons rfl ((ho.keeps _ rest).bind fun condition rest' hle hle' => ?_)
            dsimp only
            by_cases helse : ∀ t ∈ rest'.head?, t ≠ .name "else"
            · rw [conditionBehind_of_head? helse,
                conditionBehind_of_head? fun t ht => helse t (head?_beforeEnd ht)]
              exact ih more (.choose condition e none) rest' (by omega) (by omega)
            · cases rest' with
              | nil => simp at helse
              | cons t rest' =>
                  obtain rfl : t = .name "else" := by simpa using helse
                  rw [List.length_cons] at hle
                  rw [beforeEnd_cons rfl, List.length_cons] at hle'
                  rw [beforeEnd_cons rfl]
                  refine .cons rfl ((ho.keeps _ rest').bind fun first rest₂ hle₂ hle₂' => ?_)
                  have hno := ih more first rest₂ (by omega) (by omega)
                  refine (hno.shift (e.signs + condition.signs)).bind fun no rest₃ hle₃ hle₃' => ?_
                  exact ih more (.choose condition e (some no)) rest₃ (by omega) (by omega)

theorem faithful_complete (ho : Faithful signs operand) : Faithful signs (complete operand) := by
  intro ts
  refine (ho ts).bind fun e rest hle hle' => ?_
  exact keeps_conditions ho _ _ e rest hle hle'

theorem faithful_unconditional : ∀ depth, Faithful signs (unconditional depth)
  | 0 => faithful_tooDeep
  | 1 => faithful_operators (faithful_primary faithful_tooDeep) (faithful_complete faithful_tooDeep)
  | depth + 2 =>
      faithful_operators (faithful_primary (faithful_complete (faithful_unconditional depth)))
        (faithful_complete (faithful_unconditional (depth + 1)))

/-- Expressions are read by the tokens before the end of the output alone. -/
theorem faithful_read : ∀ depth, Faithful signs (read depth)
  | 0 => faithful_tooDeep
  | depth + 1 => faithful_complete (faithful_unconditional depth)

end Expression

end Template

end ExperimentSuite
