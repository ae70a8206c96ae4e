import Binisaya.Proofs.Grammar.Literals

/-!
# Another literal in the place of one

Where a literal stands, an integer can stand: if one piece of a program is a literal, any integer of
the grammar can take its place, and the pieces spell a program again.
-/

namespace Binisaya

/-- With another piece in the place of any occurrence of the first, the pieces stay good. -/
def Replaceable (l l' : Lexeme) (pieces : List Lexeme) (good : List Lexeme → Prop) : Prop :=
  ∀ front rest, pieces = front ++ l :: rest → good (front ++ l' :: rest)

namespace Replaceable

variable {l l' : Lexeme} {ps qs : List Lexeme} {good good' : List Lexeme → Prop}

theorem nil : Replaceable l l' [] good := by
  intro front rest h
  simp at h

theorem mono (h : Replaceable l l' ps good) (hgood : ∀ qs, good qs → good' qs) :
    Replaceable l l' ps good' :=
  fun front rest heq => hgood _ (h front rest heq)

theorem append (hps : Replaceable l l' ps fun rs => good (rs ++ qs))
    (hqs : Replaceable l l' qs fun rs => good (ps ++ rs)) : Replaceable l l' (ps ++ qs) good := by
  intro front rest h
  rcases List.append_eq_append_iff.mp h with ⟨mid, rfl, hmid⟩ | ⟨mid, rfl, hmid⟩
  · simpa using hqs mid rest hmid
  · cases mid with
    | nil => simpa using hqs [] rest (by simpa using hmid.symm)
    | cons c mid =>
      obtain ⟨rfl, rfl⟩ := List.cons.inj hmid
      simpa using hps front mid rfl

theorem singleton (h : good [l']) (piece : Lexeme) : Replaceable l l' [piece] good := by
  intro front rest heq
  cases front with
  | nil =>
    obtain ⟨-, rfl⟩ := List.cons.inj heq
    exact h
  | cons c front => simp at heq

theorem cons {piece : Lexeme} (hne : l ≠ piece)
    (h : Replaceable l l' ps fun rs => good (piece :: rs)) : Replaceable l l' (piece :: ps) good := by
  intro front rest heq
  cases front with
  | nil => exact absurd (List.cons.inj heq).1.symm hne
  | cons c front =>
    obtain ⟨rfl, rfl⟩ := List.cons.inj heq
    exact h front rest rfl

end Replaceable

section

variable {l : Lexeme} {v : String} (hl : l.1.isLiteral = true) (hv : (readInt 32 v).isOk = true)
include hl hv

theorem Expr.WellFormed.replaceable {e : Expr} (hwf : e.WellFormed) :
    Replaceable l (.int, v) e.unparse fun ps =>
      ∃ e' : Expr, e'.WellFormed ∧ e'.rank = e.rank ∧ e'.unparse = ps := by
  induction e with
  | absent => exact .nil
  | literal kind text =>
    have hint : ∃ e' : Expr, e'.WellFormed ∧ e'.rank = 8 ∧ e'.unparse = [(.int, v)] :=
      ⟨.literal .int v, hv, rfl, rfl⟩
    cases kind with
    | other => exact .nil
    | int | float | bool | string => exact .singleton hint _
  | name n => exact .cons (l.ne_identifier hl n) .nil
  | binary op left right ihl ihr =>
    obtain ⟨hop, hleft, hright, hrank, hrank'⟩ := hwf
    rw [unparse]
    refine .append ((ihl hleft).mono ?_) (.cons (l.ne_sign hl _) ((ihr hright).mono ?_))
    · rintro ps ⟨e', hwf', hsame, rfl⟩
      exact ⟨.binary op e' right, ⟨hop, hwf', hright, hsame ▸ hrank, hrank'⟩, rfl, rfl⟩
    · rintro ps ⟨e', hwf', hsame, rfl⟩
      exact ⟨.binary op left e', ⟨hop, hleft, hwf', hrank, hsame ▸ hrank'⟩, rfl, rfl⟩
  | unary op operand ih =>
    obtain ⟨hop, hoperand, hrank⟩ := hwf
    rw [unparse]
    refine .cons (l.ne_sign hl _) ((ih hoperand).mono ?_)
    rintro ps ⟨e', hwf', hsame, rfl⟩
    exact ⟨.unary op e', ⟨hop, hwf', hsame ▸ hrank⟩, rfl, rfl⟩
  | group inner ih =>
    rw [unparse]
    refine .cons (l.ne_sign hl _) (.append ((ih hwf).mono ?_) (.cons (l.ne_sign hl _) .nil))
    rintro ps ⟨e', hwf', -, rfl⟩
    exact ⟨.group e', hwf', rfl, rfl⟩
  | assign target value ih =>
    rw [unparse]
    refine .cons (l.ne_identifier hl _) (.cons (l.ne_sign hl _) ((ih hwf).mono ?_))
    rintro ps ⟨e', hwf', -, rfl⟩
    exact ⟨.assign target e', hwf', rfl, rfl⟩

theorem Expr.OptionalWellFormed.replaceable {e : Expr} (hwf : e.OptionalWellFormed) :
    Replaceable l (.int, v) e.unparse fun ps =>
      ∃ e' : Expr, e'.OptionalWellFormed ∧ e'.unparse = ps := by
  rcases hwf with rfl | hwf
  · exact .nil
  · refine (hwf.replaceable hl hv).mono ?_
    rintro ps ⟨e', hwf', -, hspells⟩
    exact ⟨e', .inr hwf', hspells⟩

end

/-- What places ask of a statement apart from being well formed. -/
def Stmt.shape (s : Stmt) : Bool × Bool × Bool := (s.isDeclare, s.endsOpen, s.isLoopInitial)

/-- The shape of a conditional is that of its alternative's end. -/
theorem Stmt.shape_ifElse (condition condition' : Expr) (consequent consequent' : Stmt)
    {alternative alternative' : Stmt} (habsent : alternative.isAbsent = alternative'.isAbsent)
    (hshape : alternative.shape = alternative'.shape) :
    (ifElse condition consequent alternative).shape =
      (ifElse condition' consequent' alternative').shape := by
  have hends : alternative.endsOpen = alternative'.endsOpen := congrArg (·.2.1) hshape
  cases h : alternative'.isAbsent with
  | true =>
    rw [h] at habsent
    rw [eq_absent_of_isAbsent habsent, eq_absent_of_isAbsent h]
    rfl
  | false =>
    rw [h] at habsent
    simp [shape, isDeclare, isLoopInitial, endsOpen_ifElse habsent, endsOpen_ifElse h, hends]

/-- The pieces of a statement that fits wherever the given one does. -/
def Stmt.SpellsAlike (s : Stmt) (ps : List Lexeme) : Prop :=
  ∃ s' : Stmt, s'.WellFormed ∧ s'.shape = s.shape ∧ s'.unparse = ps

mutual

/-- An integer can take the place of any literal of a statement. -/
theorem Stmt.replaceable {l : Lexeme} {v : String} (hl : l.1.isLiteral = true)
    (hv : (readInt 32 v).isOk = true) : (s : Stmt) → s.WellFormed →
    Replaceable l (.int, v) s.unparse s.SpellsAlike
  | .absent, hwf => by simp [Stmt.WellFormed] at hwf
  | .declare type name initial, hwf => by
    rw [Stmt.WellFormed] at hwf
    rw [Stmt.unparse]
    refine .cons (l.ne_keyword hl _) (.cons (l.ne_identifier hl _) ?_)
    rcases hwf.2 with rfl | hinitial
    · exact .cons (l.ne_sign hl _) .nil
    · rw [Stmt.initialLexemes, hinitial.isAbsent]
      refine .cons (l.ne_sign hl _) (.append ((hinitial.replaceable hl hv).mono ?_)
        (.cons (l.ne_sign hl _) .nil))
      rintro ps ⟨e', hwf', -, rfl⟩
      refine ⟨.declare type name e', ?_, rfl, ?_⟩
      · rw [Stmt.WellFormed]
        exact ⟨hwf.1, .inr hwf'⟩
      · rw [Stmt.unparse, Stmt.initialLexemes, hwf'.isAbsent]
        rfl
  | .print value, hwf => by
    rw [Stmt.WellFormed] at hwf
    rw [Stmt.unparse]
    refine .cons (l.ne_keyword hl _) (.append ((hwf.replaceable hl hv).mono ?_)
      (.cons (l.ne_sign hl _) .nil))
    rintro ps ⟨e', hwf', -, rfl⟩
    exact ⟨.print e', by rwa [Stmt.WellFormed], rfl, by rw [Stmt.unparse]⟩
  | .expression value, hwf => by
    rw [Stmt.WellFormed] at hwf
    rw [Stmt.unparse]
    refine .append ((hwf.replaceable hl hv).mono ?_) (.cons (l.ne_sign hl _) .nil)
    rintro ps ⟨e', hwf', -, rfl⟩
    exact ⟨.expression e', by rwa [Stmt.WellFormed], rfl, by rw [Stmt.unparse]⟩
  | .block body, hwf => by
    rw [Stmt.WellFormed] at hwf
    rw [Stmt.unparse]
    refine .cons (l.ne_sign hl _) (.append ((Stmt.allReplaceable hl hv body hwf).mono ?_)
      (.cons (l.ne_sign hl _) .nil))
    rintro ps ⟨body', hwf', rfl⟩
    exact ⟨.block body', by rwa [Stmt.WellFormed], rfl, by rw [Stmt.unparse]⟩
  | .ifElse condition consequent alternative, hwf => by
    rw [Stmt.WellFormed] at hwf
    obtain ⟨hcondition, hconsequent, hdeclare, halternative⟩ := hwf
    rw [Stmt.unparse]
    refine .append (.cons (l.ne_keyword hl _) (.cons (l.ne_sign hl _) (.append
      ((hcondition.replaceable hl hv).mono ?_) (.cons (l.ne_sign hl _)
        ((Stmt.replaceable hl hv consequent hconsequent).mono ?_))))) ?_
    · rintro ps ⟨e', hwf', -, rfl⟩
      refine ⟨.ifElse e' consequent alternative, ?_, Stmt.shape_ifElse _ _ _ _ rfl rfl, ?_⟩
      · rw [Stmt.WellFormed]
        exact ⟨hwf', hconsequent, hdeclare, halternative⟩
      · rw [Stmt.unparse]
    · rintro ps ⟨s', hwf', hshape, rfl⟩
      have hends : s'.endsOpen = consequent.endsOpen := congrArg (·.2.1) hshape
      have hdeclare' : s'.isDeclare = consequent.isDeclare := congrArg (·.1) hshape
      refine ⟨.ifElse condition s' alternative, ?_, Stmt.shape_ifElse _ _ _ _ rfl rfl, ?_⟩
      · rw [Stmt.WellFormed, hdeclare', hends]
        exact ⟨hcondition, hwf', hdeclare, halternative⟩
      · rw [Stmt.unparse]
    · rcases halternative with rfl | ⟨hwf, hdeclareA, hends⟩
      · exact .nil
      · rw [hwf.isAbsent]
        refine .cons (l.ne_keyword hl _) ((Stmt.replaceable hl hv alternative hwf).mono ?_)
        rintro ps ⟨s', hwf', hshape, rfl⟩
        have hdeclare' : s'.isDeclare = alternative.isDeclare := congrArg (·.1) hshape
        refine ⟨.ifElse condition consequent s', ?_, Stmt.shape_ifElse _ _ _ _ ?_ hshape, ?_⟩
        · rw [Stmt.WellFormed]
          exact ⟨hcondition, hconsequent, hdeclare, .inr ⟨hwf', hdeclare'.trans hdeclareA, hends⟩⟩
        · rw [hwf'.isAbsent, hwf.isAbsent]
        · rw [Stmt.unparse, hwf'.isAbsent]
          rfl
  | .whileLoop condition body, hwf => by
    rw [Stmt.WellFormed] at hwf
    obtain ⟨hcondition, hbody, hdeclare⟩ := hwf
    rw [Stmt.unparse]
    refine .cons (l.ne_keyword hl _) (.cons (l.ne_sign hl _) (.append
      ((hcondition.replaceable hl hv).mono ?_) (.cons (l.ne_sign hl _)
        ((Stmt.replaceable hl hv body hbody).mono ?_))))
    · rintro ps ⟨e', hwf', -, rfl⟩
      refine ⟨.whileLoop e' body, ?_, rfl, ?_⟩
      · rw [Stmt.WellFormed]
        exact ⟨hwf', hbody, hdeclare⟩
      · rw [Stmt.unparse]
    · rintro ps ⟨s', hwf', hshape, rfl⟩
      have hdeclare' : s'.isDeclare = body.isDeclare := congrArg (·.1) hshape
      have hends : s'.endsOpen = body.endsOpen := congrArg (·.2.1) hshape
      refine ⟨.whileLoop condition s', ?_, ?_, ?_⟩
      · rw [Stmt.WellFormed]
        exact ⟨hcondition, hwf', hdeclare'.trans hdeclare⟩
      · simp [Stmt.shape, Stmt.isDeclare, Stmt.isLoopInitial, Stmt.endsOpen, hends]
      · rw [Stmt.unparse]
  | .forLoop initial condition increment body, hwf => by
    rw [Stmt.WellFormed] at hwf
    obtain ⟨hinitial, hcondition, hincrement, hbody, hdeclare⟩ := hwf
    rw [Stmt.unparse]
    refine .cons (l.ne_keyword hl _) (.cons (l.ne_sign hl _) (.append (.append ?_
      ((hcondition.replaceable hl hv).mono ?_)) (.cons (l.ne_sign hl _) (.append
        ((hincrement.replaceable hl hv).mono ?_) (.cons (l.ne_sign hl _)
          ((Stmt.replaceable hl hv body hbody).mono ?_))))))
    · rcases hinitial with rfl | ⟨hwf, hloop⟩
      · exact .cons (l.ne_sign hl _) .nil
      · rw [hwf.isAbsent]
        refine (Stmt.replaceable hl hv initial hwf).mono ?_
        rintro ps ⟨s', hwf', hshape, rfl⟩
        have hloop' : s'.isLoopInitial = initial.isLoopInitial := congrArg (·.2.2) hshape
        refine ⟨.forLoop s' condition increment body, ?_, ?_, ?_⟩
        · rw [Stmt.WellFormed]
          exact ⟨.inr ⟨hwf', hloop'.trans hloop⟩, hcondition, hincrement, hbody, hdeclare⟩
        · simp [Stmt.shape, Stmt.isDeclare, Stmt.isLoopInitial, Stmt.endsOpen]
        · rw [Stmt.unparse, hwf'.isAbsent]
          rfl
    · rintro ps ⟨e', hwf', rfl⟩
      refine ⟨.forLoop initial e' increment body, ?_, ?_, ?_⟩
      · rw [Stmt.WellFormed]
        exact ⟨hinitial, hwf', hincrement, hbody, hdeclare⟩
      · simp [Stmt.shape, Stmt.isDeclare, Stmt.isLoopInitial, Stmt.endsOpen]
      · rw [Stmt.unparse]
    · rintro ps ⟨e', hwf', rfl⟩
      refine ⟨.forLoop initial condition e' body, ?_, ?_, ?_⟩
      · rw [Stmt.WellFormed]
        exact ⟨hinitial, hcondition, hwf', hbody, hdeclare⟩
      · simp [Stmt.shape, Stmt.isDeclare, Stmt.isLoopInitial, Stmt.endsOpen]
      · rw [Stmt.unparse]
    · rintro ps ⟨s', hwf', hshape, rfl⟩
      have hdeclare' : s'.isDeclare = body.isDeclare := congrArg (·.1) hshape
      have hends : s'.endsOpen = body.endsOpen := congrArg (·.2.1) hshape
      refine ⟨.forLoop initial condition increment s', ?_, ?_, ?_⟩
      · rw [Stmt.WellFormed]
        exact ⟨hinitial, hcondition, hincrement, hwf', hdeclare'.trans hdeclare⟩
      · simp [Stmt.shape, Stmt.isDeclare, Stmt.isLoopInitial, Stmt.endsOpen, hends]
      · rw [Stmt.unparse]

theorem Stmt.allReplaceable {l : Lexeme} {v : String} (hl : l.1.isLiteral = true)
    (hv : (readInt 32 v).isOk = true) : (ss : List Stmt) → Stmt.AllWellFormed ss →
    Replaceable l (.int, v) (Stmt.unparseAll ss) fun ps =>
      ∃ ss', Stmt.AllWellFormed ss' ∧ Stmt.unparseAll ss' = ps
  | [], _ => .nil
  | s :: ss, hwf => by
    rw [Stmt.AllWellFormed] at hwf
    rw [Stmt.unparseAll]
    refine .append ((Stmt.replaceable hl hv s hwf.1).mono ?_)
      ((Stmt.allReplaceable hl hv ss hwf.2).mono ?_)
    · rintro ps ⟨s', hwf', -, rfl⟩
      exact ⟨s' :: ss, ⟨hwf', hwf.2⟩, by rw [Stmt.unparseAll]⟩
    · rintro ps ⟨ss', hwf', rfl⟩
      exact ⟨s :: ss', ⟨hwf.1, hwf'⟩, by rw [Stmt.unparseAll]⟩

end

end Binisaya
