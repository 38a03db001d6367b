import Mathlib.Data.List.Induction
import ProseMap.Redaction

/-!
# Redactions in a row

Redactions that follow one another see only what the ones before have left, and yet the
outcome can be read off the whole row: a value that was cleared once stays empty, and of
several masks the last one shows. `leave_leaveAll` is the step, `foldl_leave` the row. -/

namespace ProseMap.Redaction

variable {redaction : Redaction} {redactions : List Redaction} {node : Node}
  {value : String} {symbol : Char}

/-! ## One redaction -/

/-- What a redaction leaves of a value. -/
def leave : Redaction → String → String
  | .mask symbol, value => masked symbol value
  | .clear, _ => ""

theorem masked_eq_replicate (symbol : Char) (text : String) :
    masked symbol text = String.ofList (List.replicate text.length symbol) := by
  rw [masked, List.map_const', String.length_toList]

/-- A value that is there is redacted, and nothing else of the node. -/
theorem apply_of_value (redaction : Redaction) (h : node.value = some value) :
    redaction.apply node = .ok { node with value := some (redaction.leave value) } := by
  cases redaction <;> simp [apply, h, leave]

theorem mask_apply_of_no_value (h : node.value = none) (symbol : Char) :
    (mask symbol).apply node = .error (.noValue node.kind) := by
  simp [apply, h]

theorem clear_apply_of_no_value (h : node.value = none) :
    clear.apply node = .ok node := by
  simp [apply, h]

/-! ## A row of redactions -/

theorem applyAll_cons (redaction : Redaction) (rest : List Redaction) (node : Node) :
    applyAll (redaction :: rest) node = (redaction.apply node).bind (applyAll rest) := rfl

/-- A value that is there passes through all redactions. -/
theorem applyAll_of_value (h : node.value = some value) :
    applyAll redactions node = .ok { node with
      value := some
        (redactions.foldl (fun left redaction => redaction.leave left) value) } := by
  induction redactions generalizing node value with
  | nil =>
    cases node
    cases h
    rfl
  | cons redaction rest ih =>
    rw [applyAll_cons, apply_of_value redaction h]
    exact ih rfl

/-- Without a mask a node that has no value stays as it is. -/
theorem applyAll_of_no_mask (h : node.value = none)
    (hmask : ∀ symbol, mask symbol ∉ redactions) :
    applyAll redactions node = .ok node := by
  induction redactions with
  | nil => rfl
  | cons redaction rest ih =>
    have hrest : ∀ symbol, mask symbol ∉ rest :=
      fun symbol hmem => hmask symbol (List.mem_cons_of_mem _ hmem)
    cases redaction with
    | mask symbol => exact absurd List.mem_cons_self (hmask symbol)
    | clear =>
      rw [applyAll_cons, clear_apply_of_no_value h]
      exact ih hrest

/-- The first mask is refused if there is no value. -/
theorem applyAll_of_mask (h : node.value = none) (hmask : mask symbol ∈ redactions) :
    applyAll redactions node = .error (.noValue node.kind) := by
  induction redactions with
  | nil => cases hmask
  | cons redaction rest ih =>
    cases redaction with
    | mask first =>
      rw [applyAll_cons, mask_apply_of_no_value h]
      rfl
    | clear =>
      rw [applyAll_cons, clear_apply_of_no_value h]
      exact ih (by simpa using hmask)

/-! ## What a row leaves -/

/-- The symbol of a mask. -/
def symbol? : Redaction → Option Char
  | .mask symbol => some symbol
  | .clear => none

/-- What a row of redactions leaves of a value: nothing if it is cleared at any time, and
otherwise the symbol of the last mask for each of its characters. -/
def leaveAll (redactions : List Redaction) (value : String) : String :=
  if value = "" ∨ clear ∈ redactions then
    ""
  else
    match (redactions.filterMap symbol?).getLast? with
    | some symbol => String.ofList (List.replicate value.length symbol)
    | none => value

theorem leaveAll_of_empty (h : value = "" ∨ clear ∈ redactions) :
    leaveAll redactions value = "" :=
  if_pos h

/-- What is not cleared keeps the number of its characters. -/
theorem length_leaveAll (h : ¬ (value = "" ∨ clear ∈ redactions)) :
    (leaveAll redactions value).length = value.length := by
  rw [leaveAll, if_neg h]
  split <;> simp

/-- One more redaction acts on what the row before it has left. -/
theorem leave_leaveAll (redaction : Redaction) (redactions : List Redaction)
    (value : String) :
    redaction.leave (leaveAll redactions value) =
      leaveAll (redactions ++ [redaction]) value := by
  cases redaction with
  | clear =>
    have h' : value = "" ∨ clear ∈ redactions ++ [clear] := .inr (by simp)
    rw [leaveAll_of_empty h']
    rfl
  | mask symbol =>
    by_cases h : value = "" ∨ clear ∈ redactions
    · have h' : value = "" ∨ clear ∈ redactions ++ [mask symbol] := by simpa using h
      rw [leaveAll_of_empty h, leaveAll_of_empty h']
      rfl
    · have h' : ¬ (value = "" ∨ clear ∈ redactions ++ [mask symbol]) := by simpa using h
      have hlast :
          ((redactions ++ [mask symbol]).filterMap symbol?).getLast? = some symbol := by
        simp [symbol?]
      rw [leave, masked_eq_replicate, length_leaveAll h, leaveAll, if_neg h', hlast]

theorem foldl_leave (redactions : List Redaction) (value : String) :
    redactions.foldl (fun left redaction => redaction.leave left) value =
      leaveAll redactions value := by
  induction redactions using List.reverseRecOn with
  | nil =>
    by_cases h : value = ""
    · subst h
      rfl
    · simp [leaveAll, h]
  | append_singleton rest redaction ih =>
    rw [List.foldl_append, ih, List.foldl_cons, List.foldl_nil, leave_leaveAll]

/-! ## Outcomes -/

/-- How a row of redactions ends for a node. -/
structure Settles (redactions : List Redaction) (node : Node) : Prop where
  /-- Only a node without a value refuses, and only a mask. -/
  refused_iff : ∀ refusal, applyAll redactions node = .error refusal ↔
    node.value = none ∧ (∃ symbol, mask symbol ∈ redactions) ∧
      refusal = .noValue node.kind
  /-- Otherwise a node without a value is left alone. -/
  without_value : node.value = none → (∀ symbol, mask symbol ∉ redactions) →
    applyAll redactions node = .ok node
  /-- Of a node with a value all the rest is kept. -/
  with_value : ∀ value, node.value = some value →
    applyAll redactions node = .ok { node with value := some (leaveAll redactions value) }

theorem settles (redactions : List Redaction) (node : Node) :
    Settles redactions node where
  refused_iff := by
    intro refusal
    cases h : node.value with
    | some value => simp [applyAll_of_value h]
    | none =>
      by_cases hmask : ∃ symbol, mask symbol ∈ redactions
      · obtain ⟨symbol, hsymbol⟩ := hmask
        have hex : ∃ symbol, mask symbol ∈ redactions := ⟨symbol, hsymbol⟩
        simp [applyAll_of_mask h hsymbol, hex, eq_comm]
      · rw [applyAll_of_no_mask h (not_exists.mp hmask)]
        simp [hmask]
  without_value := applyAll_of_no_mask
  with_value := by
    intro value h
    rw [applyAll_of_value h, foldl_leave]

/-- All that counts of a row is whether anything in it clears, and its last mask. -/
theorem applyAll_congr {others : List Redaction}
    (hclear : clear ∈ redactions ↔ clear ∈ others)
    (hlast : (redactions.filterMap symbol?).getLast? =
      (others.filterMap symbol?).getLast?)
    (node : Node) : applyAll redactions node = applyAll others node := by
  have mask_mem_iff (row : List Redaction) :
      (∃ symbol, mask symbol ∈ row) ↔ (row.filterMap symbol?).getLast? ≠ none := by
    rw [ne_eq, List.getLast?_eq_none_iff, List.filterMap_eq_nil_iff]
    constructor
    · intro ⟨symbol, hmem⟩ h
      cases h _ hmem
    · intro h
      by_contra hno
      apply h
      intro redaction hmem
      cases redaction with
      | mask symbol => exact absurd ⟨symbol, hmem⟩ hno
      | clear => rfl
  cases h : node.value with
  | some value =>
    rw [(settles redactions node).with_value value h,
      (settles others node).with_value value h]
    simp only [leaveAll, hclear, hlast]
  | none =>
    by_cases hmask : ∃ symbol, mask symbol ∈ redactions
    · have hmask' : ∃ symbol, mask symbol ∈ others := by
        rwa [mask_mem_iff, ← hlast, ← mask_mem_iff]
      rw [((settles redactions node).refused_iff _).mpr ⟨h, hmask, rfl⟩,
        ((settles others node).refused_iff _).mpr ⟨h, hmask', rfl⟩]
    · have hmask' : ¬ ∃ symbol, mask symbol ∈ others := by
        rwa [mask_mem_iff, ← hlast, ← mask_mem_iff]
      rw [applyAll_of_no_mask h (not_exists.mp hmask),
        applyAll_of_no_mask h (not_exists.mp hmask')]

/-- Every row of redactions settles on a refusal or on one value. In such a row a
redaction does nothing the second time, a mask hides the masks before it, and what clears
hides the masks on both sides. -/
theorem settles_of_rows :
    (∀ redactions node, Settles redactions node) ∧
    (∀ redaction before after node,
      applyAll (before ++ redaction :: redaction :: after) node =
        applyAll (before ++ redaction :: after) node) ∧
    (∀ first later before between after node,
      applyAll (before ++ mask first :: (between ++ mask later :: after)) node =
        applyAll (before ++ (between ++ mask later :: after)) node) ∧
    ∀ symbol before after node, node.value ≠ none → clear ∈ before ++ after →
      applyAll (before ++ mask symbol :: after) node =
        applyAll (before ++ after) node := by
  refine ⟨settles, ?_, ?_, ?_⟩
  · intro redaction before after node
    apply applyAll_congr
    · simp
    · cases redaction with
      | mask symbol => simp [symbol?, List.getLast?_append, List.getLast?_cons]
      | clear => simp only [List.filterMap_append, List.filterMap_cons, symbol?]
  · intro first later before between after node
    apply applyAll_congr
    · simp
    · simp [symbol?, List.getLast?_append, List.getLast?_cons]
  · intro symbol before after node h hclear
    obtain ⟨value, hvalue⟩ := Option.ne_none_iff_exists'.mp h
    have hclear' : clear ∈ before ++ mask symbol :: after := by simpa using hclear
    rw [(settles _ node).with_value value hvalue,
      (settles _ node).with_value value hvalue, leaveAll_of_empty (.inr hclear),
      leaveAll_of_empty (.inr hclear')]

/-- A code span whose value has a character of two bytes. -/
def accented : Node :=
  { Node.spanning .code "`é!`" ⟨0, 5⟩ with value := some "é!" }

/-- The wide symbol of the last mask stands for each character, and clearing is final. -/
theorem settles_of_rows_accented :
    accented.value ≠ none ∧ clear ∈ [mask '*'] ++ [clear, mask '＊'] ∧
      applyAll [mask '*', mask '＊'] accented = .ok { accented with value := some "＊＊" } ∧
      applyAll [mask '*', mask '-', clear, mask '＊'] accented =
        .ok { accented with value := some "" } ∧
      applyAll ([mask '*'] ++ mask '-' :: [clear, mask '＊']) accented =
        applyAll ([mask '*'] ++ [clear, mask '＊']) accented :=
  ⟨by decide, by decide, rfl, rfl,
    settles_of_rows.2.2.2 '-' [mask '*'] [clear, mask '＊'] accented
      (by decide) (by decide)⟩

end ProseMap.Redaction
