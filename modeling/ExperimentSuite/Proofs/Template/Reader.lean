import Mathlib.Algebra.BigOperators.Group.List.Basic
import Mathlib.Algebra.GroupWithZero.Nat
import ExperimentSuite.Proofs.Outcome
import ExperimentSuite.Template.Statement.Parser

/-!
# Readers that keep to an output

No part of an expression looks behind the token that ends an output: a faithful
reader reads no such token, and what it reads before one it also reads where the
tokens stop there. It counts every plus and minus that it reads, so no sign is
read over. Readers that are put together of faithful ones are faithful.
-/

namespace ExperimentSuite

namespace Template

namespace Token

/-- Whether a token can be part of an expression. -/
def isInner : Token → Bool
  | .name _ | .str _ | .int _ | .float _ | .sign _ => true
  | _ => false

/-- Whether a token is a plus or a minus, as a number. -/
def signs : Token → Nat
  | .sign .plus => 1
  | .sign .minus => 1
  | _ => 0

/-- The number of plus and minus signs among tokens. -/
def signsOf (tokens : List Token) : Nat :=
  (tokens.map signs).sum

theorem signsOf_append (read rest : List Token) :
    signsOf (read ++ rest) = signsOf read + signsOf rest := by
  rw [signsOf, List.map_append, List.sum_append]
  rfl

/-- The tokens before the first one that ends an output. -/
def beforeEnd : List Token → List Token
  | [] => []
  | .closeOutput :: _ => []
  | t :: rest => t :: beforeEnd rest

theorem beforeEnd_cons {t : Token} (h : t.isInner = true) (rest : List Token) :
    beforeEnd (t :: rest) = t :: beforeEnd rest := by
  cases t <;> first | rfl | cases h

theorem beforeEnd_append {read : List Token} (h : ∀ t ∈ read, t.isInner = true)
    (rest : List Token) : beforeEnd (read ++ rest) = read ++ beforeEnd rest := by
  induction read with
  | nil => rfl
  | cons t read ih =>
      rw [List.cons_append, beforeEnd_cons (h t List.mem_cons_self),
        ih fun t ht => h t (List.mem_cons_of_mem _ ht), List.cons_append]

/-- The end of an output that is the first one. -/
theorem beforeEnd_closed {tokens : List Token} (h : Token.closeOutput ∉ tokens)
    (rest : List Token) : beforeEnd (tokens ++ .closeOutput :: rest) = tokens := by
  induction tokens with
  | nil => rfl
  | cons t tokens ih =>
      obtain ⟨hne, htokens⟩ := not_or.mp (mt List.mem_cons.mpr h)
      rw [List.cons_append, beforeEnd, ih htokens]
      exact fun heq => hne heq.symm

theorem exists_eq_cons_of_beforeEnd {tokens rest' : List Token} {t : Token}
    (h : beforeEnd tokens = t :: rest') :
    ∃ rest, tokens = t :: rest ∧ beforeEnd rest = rest' := by
  cases tokens with
  | nil => cases h
  | cons t' rest =>
      cases t' <;> first | (cases h; exact ⟨rest, rfl, rfl⟩) | cases h

end Token

/-- The plus and minus signs of an operator, as a number. -/
def Operator.signs : Operator → Nat
  | .add => 1
  | .subtract => 1
  | _ => 0

namespace Expression

mutual

/-- The number of sums, differences and negations in an expression. -/
def signs : Expression → Nat
  | .constant _ => 0
  | .lookup _ => 0
  | .list items => signsOfItems items
  | .map entries => signsOfEntries entries
  | .negate e => signs e + 1
  | .not e => signs e
  | .operate op left right => signs left + op.signs + signs right
  | .and left right => signs left + signs right
  | .or left right => signs left + signs right
  | .compare first rest => signs first + signsOfComparisons rest
  | .choose condition yes no => signs yes + signs condition + signsOfOption no
  | .field e _ => signs e
  | .item e key => signs e + signs key
  | .call callee arguments => signs callee + signsOfItems arguments
  | .filter e _ arguments => signs e + signsOfItems arguments
  | .test e _ arguments => signs e + signsOfItems arguments

/-- The number in items. -/
def signsOfItems : List Expression → Nat
  | [] => 0
  | e :: rest => signs e + signsOfItems rest

/-- The number in entries. -/
def signsOfEntries : List (Expression × Expression) → Nat
  | [] => 0
  | (k, e) :: rest => signs k + signs e + signsOfEntries rest

/-- The number in the operands of comparisons. -/
def signsOfComparisons : List (Comparison × Expression) → Nat
  | [] => 0
  | (_, e) :: rest => signs e + signsOfComparisons rest

/-- The number in an optional expression. -/
def signsOfOption : Option Expression → Nat
  | none => 0
  | some e => signs e

end

theorem signsOfItems_eq_sum : ∀ items, signsOfItems items = (items.map signs).sum
  | [] => rfl
  | e :: rest => by simp [signsOfItems, signsOfItems_eq_sum rest]

theorem signsOfEntries_eq_sum :
    ∀ entries, signsOfEntries entries = (entries.map fun e => signs e.1 + signs e.2).sum
  | [] => rfl
  | (k, e) :: rest => by simp [signsOfEntries, signsOfEntries_eq_sum rest]

theorem signsOfComparisons_eq_sum :
    ∀ rest, signsOfComparisons rest = (rest.map fun c => signs c.2).sum
  | [] => rfl
  | (_, e) :: rest => by simp [signsOfComparisons, signsOfComparisons_eq_sum rest]

end Expression

namespace Reader

open Token

variable {α β : Type} {base : Nat} {w : α → Nat} {w' : β → Nat} {ts rest : List Token} {a : α}
  {x y : Except EngineFault (α × List Token)}

/-- An outcome at the front of tokens and one at the front of those before the end of the output:
where the first one succeeds, it has read inner tokens only, whose signs add up to what its result
holds beyond a base, and the second one succeeds alike. -/
def Keeps (base : Nat) (w : α → Nat) (ts : List Token)
    (x y : Except EngineFault (α × List Token)) : Prop :=
  ∀ a rest, x = .ok (a, rest) →
    (∃ read, ts = read ++ rest ∧ (∀ t ∈ read, t.isInner = true) ∧ w a = base + signsOf read) ∧
      y = .ok (a, beforeEnd rest)

/-- A reader that keeps to the tokens of an output. -/
def Faithful (w : α → Nat) (r : Reader α) : Prop :=
  ∀ ts, Keeps 0 w ts (r ts) (r (beforeEnd ts))

theorem keeps_error (f : EngineFault) : Keeps base w ts (.error f) y := by
  intro a rest h
  cases h

theorem keeps_ok (h : w a = base) : Keeps base w ts (.ok (a, ts)) (.ok (a, beforeEnd ts)) := by
  rintro _ _ ⟨⟩
  exact ⟨⟨[], rfl, by simp, by simpa [signsOf] using h⟩, rfl⟩

/-- An inner token that is passed over counts as read. -/
theorem Keeps.cons {t : Token} (ht : t.isInner = true) (h : Keeps (base + t.signs) w rest x y) :
    Keeps base w (t :: rest) x y := by
  intro a rest' hx
  obtain ⟨⟨read, rfl, hinner, hw⟩, hy⟩ := h a rest' hx
  refine ⟨⟨t :: read, rfl, List.forall_mem_cons.mpr ⟨ht, hinner⟩, ?_⟩, hy⟩
  rw [hw]
  simp only [signsOf, List.map_cons, List.sum_cons]
  omega

/-- Inner tokens that are passed over count as read. -/
theorem Keeps.append {read : List Token} (hinner : ∀ t ∈ read, t.isInner = true)
    (h : Keeps (base + signsOf read) w rest x y) : Keeps base w (read ++ rest) x y := by
  induction read generalizing base with
  | nil => exact h
  | cons t read ih =>
      obtain ⟨ht, hread⟩ := List.forall_mem_cons.mp hinner
      refine .cons ht (ih hread ?_)
      rwa [Nat.add_assoc]

theorem Keeps.bind {f g : α × List Token → Except EngineFault (β × List Token)}
    (h : Keeps base w ts x y)
    (hfg : ∀ a rest, rest.length ≤ ts.length → (beforeEnd rest).length ≤ (beforeEnd ts).length →
      Keeps (w a) w' rest (f (a, rest)) (g (a, beforeEnd rest))) :
    Keeps base w' ts (x >>= f) (y >>= g) := by
  intro b final hb
  obtain ⟨⟨a, rest⟩, hx, hf⟩ := Outcome.bind_eq_ok.mp hb
  obtain ⟨⟨read, rfl, hinner, hw⟩, hy⟩ := h a rest hx
  obtain ⟨⟨read', rfl, hinner', hw'⟩, hg⟩ :=
    hfg a rest (by simp) (by simp [beforeEnd_append hinner]) b final hf
  refine ⟨⟨read ++ read', by simp, List.forall_mem_append.mpr ⟨hinner, hinner'⟩, ?_⟩,
    Outcome.bind_eq_ok.mpr ⟨_, hy, hg⟩⟩
  rw [hw', hw]
  simp only [signsOf, List.map_append, List.sum_append]
  omega

/-- A result may hold signs that were read before. -/
theorem Keeps.shift (h : Keeps base w ts x y) (k : Nat) :
    Keeps (k + base) (fun a => k + w a) ts x y := by
  intro a rest hx
  obtain ⟨⟨read, hts, hinner, hw⟩, hy⟩ := h a rest hx
  exact ⟨⟨read, hts, hinner, by simp only [hw, Nat.add_assoc]⟩, hy⟩

theorem fail_ne_ok (place : List Token) (found : α × List Token) : fail place ≠ .ok found := by
  unfold fail
  split <;> simp

/-- Where tokens cannot be read on there is nothing to keep. -/
theorem keeps_failAt (place : List Token) : Keeps base w ts (fail place) y :=
  fun a rest h => absurd h (fail_ne_ok place (a, rest))

theorem keeps_fail : Keeps base w ts (fail ts) y :=
  keeps_failAt ts

theorem isNext_beforeEnd (s : Sign) : isNext s (beforeEnd ts) = isNext s ts := by
  cases ts with
  | nil => rfl
  | cons t rest => cases t <;> rfl

theorem eq_cons_of_isNext {s : Sign} (h : isNext s ts = true) : ts = .sign s :: ts.drop 1 := by
  cases ts with
  | nil => cases h
  | cons t rest =>
      cases t with
      | sign t =>
          rw [isNext, beq_iff_eq] at h
          rw [h]
          rfl
      | _ => cases h

theorem Faithful.keeps {r : Reader α} (h : Faithful w r) (base : Nat) (ts : List Token) :
    Keeps base (fun a => base + w a) ts (r ts) (r (beforeEnd ts)) :=
  (h ts).shift base

theorem faithful_tooDeep : Faithful w (tooDeep : Reader α) := fun _ => keeps_error _

theorem keeps_sign (s : Sign) :
    Keeps base (fun _ => base + (Token.sign s).signs) ts (sign s ts) (sign s (beforeEnd ts)) := by
  cases ts with
  | nil => exact keeps_fail
  | cons t rest =>
      cases t with
      | sign t =>
          rw [beforeEnd_cons rfl, sign, sign]
          split
          · next heq =>
              subst heq
              exact .cons rfl (keeps_ok rfl)
          · exact keeps_fail
      | _ => exact keeps_fail

theorem keeps_name : Keeps base (fun _ => base) ts (name ts) (name (beforeEnd ts)) := by
  cases ts with
  | nil => exact keeps_fail
  | cons t rest =>
      cases t with
      | name n => exact .cons rfl (keeps_ok rfl)
      | _ => exact keeps_fail

/-- A closing sign that comes next is passed over. -/
theorem keeps_drop {s : Sign} (h : isNext s ts = true)
    (hrest : Keeps (base + (Token.sign s).signs) w (ts.drop 1) x y) : Keeps base w ts x y := by
  rw [eq_cons_of_isNext h]
  exact .cons rfl hrest

theorem drop_beforeEnd {s : Sign} (h : isNext s ts = true) :
    (beforeEnd ts).drop 1 = beforeEnd (ts.drop 1) := by
  rw [eq_cons_of_isNext h, beforeEnd_cons rfl]
  rfl

/-- The weight of elements. -/
def total (w : α → Nat) (read : List α) : Nat :=
  (read.map w).sum

theorem total_reverse (read : List α) : total w read.reverse = total w read := by
  rw [total, List.map_reverse, List.sum_reverse, total]

theorem separated_of_isNext {element : Reader α} {closing : Sign} {fuel : Nat} {read : List α}
    (h : isNext closing ts = true) :
    separated element closing fuel read ts = .ok (read.reverse, ts.drop 1) := by
  unfold separated
  rw [if_pos h]
  rfl

/-- What follows the comma between two elements, or stands in place of the first one. -/
def element? (element : Reader α) (closing : Sign) (fuel : Nat) (read : List α) :
    Reader (List α) := fun ts =>
  if isNext closing ts then .ok (read.reverse, ts.drop 1)
  else element ts >>= fun p => separated element closing fuel (p.1 :: read) p.2

theorem separated_of_not_isNext {element : Reader α} {closing : Sign} {fuel : Nat} {read : List α}
    (h : isNext closing ts = false) :
    separated element closing (fuel + 1) read ts =
      if read.isEmpty then element? element closing fuel read ts
      else sign .comma ts >>= fun p => element? element closing fuel read p.2 := by
  rw [separated, if_neg (by simp [h])]
  split <;> rfl

theorem total_cons (a : α) (read : List α) : total w (a :: read) = total w read + w a := by
  rw [total, List.map_cons, List.sum_cons, Nat.add_comm, total]

theorem keeps_close {closing : Sign} (hc : (Token.sign closing).signs = 0) {read : List α}
    (h : isNext closing ts = true) :
    Keeps (total w read) (total w) ts (.ok (read.reverse, ts.drop 1))
      (.ok (read.reverse, (beforeEnd ts).drop 1)) := by
  rw [drop_beforeEnd h]
  apply keeps_drop h
  exact keeps_ok (by rw [total_reverse, hc, Nat.add_zero])

/-- Elements are read alike as long as the fuel lasts for the tokens before the end. -/
theorem keeps_separated {element : Reader α} (he : Faithful w element) (closing : Sign)
    (hc : (Token.sign closing).signs = 0) (fuel fuel' : Nat) (read : List α) (ts : List Token)
    (hfuel : (beforeEnd ts).length + (if read.isEmpty then 1 else 0) ≤ fuel') :
    Keeps (total w read) (total w) ts (separated element closing fuel read ts)
      (separated element closing fuel' read (beforeEnd ts)) := by
  induction fuel generalizing fuel' read ts with
  | zero =>
      by_cases hnext : isNext closing ts = true
      · rw [separated_of_isNext hnext, separated_of_isNext ((isNext_beforeEnd _).trans hnext)]
        exact keeps_close hc hnext
      · rw [separated, if_neg hnext]
        exact keeps_fail
  | succ fuel ih =>
      have helement : ∀ fuel' ts, (beforeEnd ts).length ≤ fuel' →
          Keeps (total w read) (total w) ts (element? element closing fuel read ts)
            (element? element closing fuel' read (beforeEnd ts)) := by
        intro fuel' ts hfuel
        rw [element?, element?, isNext_beforeEnd]
        split
        · next hnext => exact keeps_close hc hnext
        · refine (he.keeps _ ts).bind fun a rest _ hle => ?_
          rw [← total_cons]
          exact ih fuel' (a :: read) rest (by simp; omega)
      by_cases hnext : isNext closing ts = true
      · rw [separated_of_isNext hnext, separated_of_isNext ((isNext_beforeEnd _).trans hnext)]
        exact keeps_close hc hnext
      · have hnot : isNext closing ts = false := by simpa using hnext
        have hnot' := (isNext_beforeEnd closing).trans hnot
        rw [separated_of_not_isNext hnot]
        split
        · next hempty =>
            rw [if_pos hempty] at hfuel
            obtain ⟨left, rfl⟩ : ∃ left, fuel' = left + 1 := ⟨fuel' - 1, by omega⟩
            rw [separated_of_not_isNext hnot', if_pos hempty]
            exact helement left ts (by omega)
        · next hsome =>
            -- a comma must come first, so the tokens before the end are not used up
            cases ts with
            | nil => exact keeps_error _
            | cons t rest =>
                cases t with
                | sign s =>
                    rw [beforeEnd_cons rfl] at hfuel hnot' ⊢
                    rw [if_neg hsome, List.length_cons] at hfuel
                    obtain ⟨left, rfl⟩ : ∃ left, fuel' = left + 1 := ⟨fuel' - 1, by omega⟩
                    rw [separated_of_not_isNext hnot', if_neg hsome, sign, sign]
                    split
                    · next heq =>
                        subst heq
                        exact .cons rfl (helement left rest (by omega))
                    · exact keeps_error _
                | fault f => exact keeps_error _
                | _ => exact keeps_error _

theorem keeps_enclosed {element : Reader α} (he : Faithful w element) (closing : Sign)
    (hc : (Token.sign closing).signs = 0) :
    Faithful (total w) (enclosed element closing) := by
  intro ts
  rw [enclosed, enclosed]
  exact keeps_separated he closing hc _ _ [] ts (by simp)

theorem head?_beforeEnd {t : Token} (h : t ∈ (beforeEnd ts).head?) : t ∈ ts.head? := by
  cases ts with
  | nil => cases h
  | cons t' rest => cases t' <;> first | exact h | cases h

/-- Whether the tokens that join operands are inner ones whose signs their operations hold. -/
def Joins (join? : Token → Option (Expression → Expression → Expression)) : Prop :=
  ∀ t join, join? t = some join → t.isInner = true ∧
    ∀ left right, (join left right).signs = left.signs + t.signs + right.signs

/-- A chain ends at a token that joins nothing. -/
theorem chainFrom_of_head? {join? : Token → Option (Expression → Expression → Expression)}
    {operand : Reader Expression} {fuel : Nat} {left : Expression}
    (h : ∀ t ∈ ts.head?, join? t = none) :
    chainFrom join? operand fuel left ts = .ok (left, ts) := by
  unfold chainFrom
  split
  · next t rest => rw [h t rfl]
  · rfl

/-- Operands are joined alike as long as the fuel lasts. -/
theorem keeps_chainFrom {join? : Token → Option (Expression → Expression → Expression)}
    {operand : Reader Expression} (ho : Faithful Expression.signs operand)
    (hjoin : Joins join?)
    (fuel fuel' : Nat) (left : Expression) (ts : List Token) (hfuel : ts.length ≤ fuel)
    (hfuel' : (beforeEnd ts).length ≤ fuel') :
    Keeps left.signs Expression.signs ts (chainFrom join? operand fuel left ts)
      (chainFrom join? operand fuel' left (beforeEnd ts)) := by
  induction fuel generalizing fuel' left ts with
  | zero =>
      obtain rfl := List.length_eq_zero_iff.mp (Nat.le_zero.mp hfuel)
      rw [beforeEnd, chainFrom_of_head? (by simp), chainFrom_of_head? (by simp)]
      exact keeps_ok rfl
  | succ fuel ih =>
      by_cases hhead : ∀ t ∈ ts.head?, join? t = none
      · rw [chainFrom_of_head? hhead,
          chainFrom_of_head? fun t ht => hhead t (head?_beforeEnd ht)]
        exact keeps_ok rfl
      · cases ts with
        | nil => simp at hhead
        | cons t rest =>
            obtain ⟨join, hsome⟩ : ∃ join, join? t = some join := by
              cases hj : join? t with
              | none => simp [hj] at hhead
              | some join => exact ⟨join, rfl⟩
            obtain ⟨hinner, hsigns⟩ := hjoin t join hsome
            rw [beforeEnd_cons hinner, List.length_cons] at hfuel'
            rw [List.length_cons] at hfuel
            obtain ⟨more, rfl⟩ : ∃ more, fuel' = more + 1 := ⟨fuel' - 1, by omega⟩
            simp only [beforeEnd_cons hinner, chainFrom, hsome]
            apply Keeps.cons hinner
            refine (ho.keeps _ rest).bind fun right rest' hle hle' => ?_
            rw [← hsigns]
            exact ih more (join left right) rest' (by omega) (by omega)

theorem faithful_chain {join? : Token → Option (Expression → Expression → Expression)}
    {operand : Reader Expression} (ho : Faithful Expression.signs operand)
    (hjoin : Joins join?) :
    Faithful Expression.signs (chain join? operand) := fun ts =>
  (ho ts).bind fun left rest _ _ =>
    keeps_chainFrom ho hjoin _ _ left rest (Nat.le_refl _) (Nat.le_refl _)

end Reader

end Template

end ExperimentSuite
