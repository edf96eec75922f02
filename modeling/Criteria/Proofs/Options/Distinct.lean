import Mathlib.Data.List.Induction
import Criteria.Dialects
import Criteria.Proofs.Param.Parts

/-!
# Options without repetitions

Each option stays where it stands first, and nothing else is said by that. It does not matter whether the
repetitions go before or after the options that a predicate rejects.

The tokens of a text may repeat. Cleaned tokens never do: a check leaves each token once, and so do the
additions of tokens to cleaned ones and of cleaned tokens to others. A check without a memory leaves each
token that its predicate accepts where it stood first.
-/

namespace Criteria.Options

theorem distinct_cons (token : Text) (tokens : List Text) :
    distinct (token :: tokens) = token :: distinct (tokens.filter fun t => !(t == token)) :=
  List.eraseDups_cons

private theorem length_filter_lt (p : Text → Bool) (token : Text) (tokens : List Text) :
    (tokens.filter p).length < (token :: tokens).length :=
  Nat.lt_succ_of_le (List.length_filter_le p tokens)

theorem distinct_sublist (tokens : List Text) : (distinct tokens).Sublist tokens := by
  match tokens with
  | [] => exact List.nil_sublist _
  | token :: tokens =>
    rw [distinct_cons]
    exact ((distinct_sublist _).trans List.filter_sublist).cons_cons token
termination_by tokens.length
decreasing_by exact length_filter_lt _ token tokens

theorem distinct_filter (accepts : Text → Bool) (tokens : List Text) :
    distinct (tokens.filter accepts) = (distinct tokens).filter accepts := by
  match tokens with
  | [] => rfl
  | token :: tokens =>
    rw [distinct_cons]
    cases accepted : accepts token with
    | true =>
      rw [List.filter_cons_of_pos accepted, List.filter_cons_of_pos accepted, distinct_cons, ← distinct_filter,
        List.filter_filter, List.filter_filter]
      simp only [Bool.and_comm]
    | false =>
      have rejected : ¬ accepts token = true := by rw [accepted]; exact Bool.false_ne_true
      -- what is accepted is another option, so that its repetitions may go before
      have other : (tokens.filter fun t => !(t == token)).filter accepts = tokens.filter accepts := by
        rw [List.filter_filter]
        refine List.filter_congr fun t _ => ?_
        by_cases same : t = token
        · rw [same, accepted, Bool.false_and]
        · simp [same]
      rw [List.filter_cons_of_neg rejected, List.filter_cons_of_neg rejected, ← distinct_filter, other]
termination_by tokens.length
decreasing_by all_goals exact length_filter_lt _ token tokens

theorem distinct_distinct (tokens : List Text) : distinct (distinct tokens) = distinct tokens := by
  match tokens with
  | [] => rfl
  | token :: tokens =>
    rw [distinct_cons, distinct_cons, ← distinct_filter, List.filter_filter]
    simp only [Bool.and_self]
    rw [distinct_distinct]
termination_by tokens.length
decreasing_by exact length_filter_lt _ token tokens

/-- What is left of some tokens: each of them once, in the order of their first places. -/
structure FirstPlaces (tokens kept : List Text) : Prop where
  mem_iff : ∀ token, token ∈ kept ↔ token ∈ tokens
  ordered : kept.Pairwise fun t u => tokens.idxOf t < tokens.idxOf u

theorem FirstPlaces.nodup {tokens kept : List Text} (h : FirstPlaces tokens kept) : kept.Nodup := by
  refine h.ordered.imp fun {t u} earlier same => ?_
  rw [same] at earlier
  exact absurd earlier (Nat.lt_irrefl _)

/-- There is only one list of that kind. -/
theorem FirstPlaces.unique {tokens kept kept' : List Text} (h : FirstPlaces tokens kept)
    (h' : FirstPlaces tokens kept') : kept = kept' := by
  have perm : kept.Perm kept' :=
    (List.perm_ext_iff_of_nodup h.nodup h'.nodup).mpr fun token => (h.mem_iff token).trans (h'.mem_iff token).symm
  refine perm.eq_of_pairwise (fun t u _ _ earlier later => ?_) h.ordered h'.ordered
  exact absurd (Nat.lt_trans earlier later) (Nat.lt_irrefl _)

theorem mem_distinct {token : Text} {tokens : List Text} : token ∈ distinct tokens ↔ token ∈ tokens :=
  List.mem_eraseDups

theorem distinct_concat (tokens : List Text) (token : Text) :
    distinct (tokens ++ [token]) = if token ∈ tokens then distinct tokens else distinct tokens ++ [token] := by
  rw [distinct, List.eraseDups_append]
  split
  · rename_i repeated
    simp [distinct, List.removeAll, repeated]
  · rename_i fresh
    have single : [token].eraseDups = [token] := distinct_cons token []
    simp [distinct, List.removeAll, fresh, single]

/-- One more token takes a place behind the others, or none. -/
theorem firstPlaces_distinct (tokens : List Text) : FirstPlaces tokens (distinct tokens) := by
  refine ⟨fun token => mem_distinct, ?_⟩
  induction tokens using List.reverseRecOn with
  | nil => exact .nil
  | append_singleton tokens token ih =>
    have before {t : Text} (member : t ∈ tokens) : (tokens ++ [token]).idxOf t = tokens.idxOf t := by
      rw [List.idxOf_append, if_pos member]
    have earlier : (distinct tokens).Pairwise fun t u => (tokens ++ [token]).idxOf t < (tokens ++ [token]).idxOf u := by
      refine ih.imp_of_mem fun {t u} inside inside' ordered => ?_
      rwa [before (mem_distinct.mp inside), before (mem_distinct.mp inside')]
    rw [distinct_concat]
    split
    · exact earlier
    · rename_i fresh
      refine List.pairwise_append.mpr ⟨earlier, List.pairwise_singleton _ _, fun t inside u last => ?_⟩
      rw [List.mem_singleton.mp last, before (mem_distinct.mp inside), List.idxOf_append, if_neg fresh]
      have bound := List.idxOf_lt_length_iff.mpr (mem_distinct.mp inside)
      omega

theorem firstPlaces_iff {tokens kept : List Text} : FirstPlaces tokens kept ↔ distinct tokens = kept := by
  constructor
  · exact (firstPlaces_distinct tokens).unique
  · rintro rfl
    exact firstPlaces_distinct tokens

end Criteria.Options

namespace Criteria

namespace Param

variable {Part Entry : Type} (d : Dialect Part Entry)

/-- The parts that a check is asked about: with `reset` those of the text, else what earlier checks have left. -/
def toClean (reset : Bool) (p : Param Part) : Except SyntaxError (List Part) :=
  (if reset then p.rawParts d else p.parts d).1

/-- A check answers if there are parts to ask it about, and then its own are left. -/
theorem clean_toClean (reset : Bool) {State : Type} (check : Check State Entry) (s : State) (p : Param Part) :
    (p.clean d reset check s).1 = (p.toClean d reset).map (fun parts => (d.sift check parts s).2) ∧
      ∀ parts, p.toClean d reset = .ok parts →
        ((p.clean d reset check s).2.parts d).1 = .ok (d.sift check parts s).1 := by
  have asks : ((if reset then { p with cleaned := none } else p).parts d).1 = p.toClean d reset := by
    cases reset with
    | false => rfl
    | true =>
      rw [toClean, if_pos rfl, if_pos rfl, parts, rawParts, rawParts]
      cases p.parsed with
      | some known => rfl
      | none => cases d.parse p.text <;> rfl
  rw [← asks, clean]
  generalize (if reset then { p with cleaned := none } else p) = begun
  rcases begun.parts d with ⟨_ | found, left⟩
  · refine ⟨rfl, ?_⟩
    rintro _ ⟨⟩
  · refine ⟨rfl, ?_⟩
    rintro _ ⟨⟩
    rfl

end Param

namespace Options

theorem nodup_distinct (tokens : List Text) : (distinct tokens).Nodup := (firstPlaces_distinct tokens).nodup

/-- What a predicate leaves of some tokens: each that it accepts once, in the order of their first places. -/
structure FirstAccepted (accepts : Text → Bool) (tokens kept : List Text) : Prop where
  mem_iff : ∀ token, token ∈ kept ↔ token ∈ tokens ∧ accepts token
  ordered : kept.Pairwise fun t u => tokens.idxOf t < tokens.idxOf u

/-- They are the accepted ones among the first places of all tokens. -/
theorem firstAccepted_filter (accepts : Text → Bool) (tokens : List Text) :
    FirstAccepted accepts tokens ((distinct tokens).filter accepts) where
  mem_iff := fun token => by rw [List.mem_filter, mem_distinct]
  ordered := (firstPlaces_distinct tokens).ordered.sublist List.filter_sublist

theorem sift_pure (accepts : Text → Bool) {State : Type} (tokens : List Text) (s : State) :
    sift (Check.pure accepts) tokens s = ((distinct tokens).filter accepts, s) := by
  rw [← distinct_filter, sift, Check.filter_pure]

/-- Checks and additions leave no repetitions, whatever there was before. -/
theorem settles_nodup : Param.Settles dialect (fun _ => True) (fun _ _ => True) fun _ tokens => tokens.Nodup where
  trimmed := fun _ => trivial
  merged := fun _ _ => trivial
  read := fun _ _ => trivial
  cleaned := fun _ => trivial
  sift := fun check s _ => nodup_distinct (check.filter _ s).1
  merge := fun _ _ _ _ => nodup_distinct _

section
variable {steps : List (Param.Step Unit Text Text)} {m : Unit} {p : Param Text}

/-- In every run the tokens of a cleaned parameter are without repetitions. A check without a memory fails if
    there is nothing to ask it about, and else it leaves the accepted tokens at their first places. -/
theorem cleaned_firstPlaces (held : (m, p) ∈ (Param.keeping fun _ : Unit => dialect).after [] steps) :
    (p.isCleaned → ∃ tokens, (p.parts dialect).1 = .ok tokens ∧ tokens.Nodup) ∧
      ∀ (reset : Bool) (accepts : Text → Bool) {State : Type} (s : State),
        (p.clean dialect reset (Check.pure accepts) s).1 = (p.toClean dialect reset).map (fun _ => s) ∧
          ∀ tokens, p.toClean dialect reset = .ok tokens →
            ∃ kept, ((p.clean dialect reset (Check.pure accepts) s).2.parts dialect).1 = .ok kept ∧
              FirstAccepted accepts tokens kept := by
  refine ⟨fun cleaned => ?_, fun reset accepts State s => ?_⟩
  · obtain ⟨tokens, found⟩ := Option.isSome_iff_exists.mp cleaned
    refine ⟨tokens, by rw [Param.parts, found], ?_⟩
    exact Param.cleaned_of_run _ _ _ (fun _ _ => rfl) (fun _ _ _ => settles_nodup) held found
  · obtain ⟨answer, left⟩ := Param.clean_toClean dialect reset (Check.pure accepts) s p
    have sifted (tokens : List Text) : dialect.sift (Check.pure accepts) tokens s =
        ((distinct tokens).filter accepts, s) := sift_pure accepts tokens s
    simp only [sifted] at answer left
    exact ⟨answer, fun tokens asked => ⟨_, left tokens asked, firstAccepted_filter accepts tokens⟩⟩

-- Tokens lose one of them and get others, some of which they have.
private def extending : List (Param.Step Unit Text Text) :=
  [.new () "a,b,a,c,b".toList,
    .act 0 (.clean false (Check.pure fun token => token ≠ ['b']) ()),
    .act 0 (.addText "d,c,d".toList)]

private def extended : Param Text where
  text := "a,b,a,c,b,d,c,d".toList
  parsed := none
  cleaned := some [['a'], ['c'], ['d']]

/-- The text has each token twice. What was left of it has each token once, and so has what a check leaves
    that begins again. -/
theorem cleaned_extended :
    ((), extended) ∈ (Param.keeping fun _ : Unit => dialect).after [] extending ∧ extended.isCleaned ∧
      (∃ tokens, (extended.parts dialect).1 = .ok tokens ∧ tokens.Nodup) ∧
      extended.toClean dialect true = .ok [['a'], ['b'], ['a'], ['c'], ['b'], ['d'], ['c'], ['d']] ∧
      ∃ kept, ((extended.clean dialect true (Check.pure fun token => token ≠ ['a']) ()).2.parts dialect).1 = .ok kept ∧
        FirstAccepted (fun token => token ≠ ['a']) [['a'], ['b'], ['a'], ['c'], ['b'], ['d'], ['c'], ['d']] kept ∧
        kept = [['b'], ['c'], ['d']] := by
  have held : ((), extended) ∈ (Param.keeping fun _ : Unit => dialect).after [] extending := by
    have row : (Param.keeping fun _ : Unit => dialect).after [] extending = [((), extended)] := by decide +kernel
    rw [row]
    exact List.mem_cons_self
  have whole : extended.toClean dialect true = .ok [['a'], ['b'], ['a'], ['c'], ['b'], ['d'], ['c'], ['d']] := by decide +kernel
  obtain ⟨distinct, cleans⟩ := cleaned_firstPlaces held
  obtain ⟨-, left⟩ := cleans true (fun token => token ≠ ['a']) ()
  obtain ⟨kept, asked, accepted⟩ := left _ whole
  have known : ((extended.clean dialect true (Check.pure fun token => token ≠ ['a']) ()).2.parts dialect).1 =
      .ok [['b'], ['c'], ['d']] := by decide +kernel
  cases asked.symm.trans known
  exact ⟨held, rfl, distinct rfl, whole, _, known, accepted, rfl⟩

end

end Options
end Criteria
