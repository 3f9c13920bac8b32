import Imx.Fastboot.EnvFile

/-!
# The runs over an environment

As long as no line end is escaped in a value, a pass of the loop of `parse_env` is a step of the
machine (`step_feed`, `step_eol`), and a run is the machine's (`At.run`). Where one is, the run
that only looks has changed the text for good (`At.spoiled`).
-/

namespace Imx.Fastboot

variable {save : Bool} {pre tail rest n bs v text : Str} {b c d z : UInt8} {m : Mode}
  {i j o sets : Nat} {calls : List Setenv} {s s' : Parse}

/-! ## The buffer -/

lemma get_at (h : i = pre.length) : (pre ++ c :: tail)[i]? = some c := by
  subst h
  rw [List.getElem?_append_right (Nat.le_refl _), Nat.sub_self]
  rfl

lemma get_left (read : pre[i]? = some c) : (pre ++ tail)[i]? = some c := by
  obtain ⟨inside, -⟩ := List.getElem?_eq_some_iff.1 read
  rw [List.getElem?_append_left inside, read]

lemma put_at (h : i = pre.length) : putByte (pre ++ c :: tail) i d = some (pre ++ d :: tail) := by
  subst h
  have inside : pre.length < (pre ++ c :: tail).length := by
    rw [List.length_append, List.length_cons]
    omega
  rw [putByte, if_pos inside, List.set_append_right _ _ (Nat.le_refl _), Nat.sub_self]
  rfl

lemma cstr_at (h : i = pre.length) : cstr (pre ++ (n ++ 0 :: tail)) i = some (cut n) := by
  subst h
  have ends : 0 ∈ n ++ 0 :: tail := List.mem_append_right _ List.mem_cons_self
  rw [cstr, List.drop_left, if_pos ends, cut_append]

/-! ## One byte -/

/-- A byte of a line. -/
lemma step_feed (save : Bool) (eol : isEol c = false) (here : i = pre.length + m.cur.length)
    (read : s = m.view (pre ++ m.cur ++ c :: tail) sets calls pre.length) :
    ∃ pre', pre' ++ (m.feed c).cur = pre ++ m.cur ++ [c] ∧
      parseStep save s i = some (.next
        ((m.feed c).view (pre ++ m.cur ++ c :: tail) sets calls pre'.length)) := by
  have at_i : (pre ++ m.cur ++ c :: tail)[i]? = some c :=
    get_at (by rw [here, List.length_append])
  subst read
  cases m with
  | blank =>
    by_cases hash : c = 35
    · refine ⟨pre ++ [c], ?_, ?_⟩
      · simp [Mode.feed, Mode.cur, hash]
      · simp only [parseStep, Mode.view, at_i]
        simp [hash, Mode.feed, ready, isEol]
    · by_cases blank : isBlank c = true
      · refine ⟨pre ++ [c], ?_, ?_⟩
        · simp [Mode.feed, Mode.cur, hash, blank]
        · simp only [parseStep, Mode.view, at_i]
          simp [hash, blank, Mode.feed, ready]
      · refine ⟨pre, ?_, ?_⟩
        · simp [Mode.feed, Mode.cur, hash, blank]
        · simp only [parseStep, Mode.view, at_i]
          simp [hash, blank, eol, Mode.feed, ready, here, Mode.cur]
  | comment =>
    refine ⟨pre ++ [c], by simp [Mode.feed, Mode.cur], ?_⟩
    simp only [parseStep, Mode.view, at_i]
    simp [eol, Mode.feed, ready]
  | name n =>
    refine ⟨pre, ?_, ?_⟩
    · by_cases blank : isBlank c = true
      · simp [Mode.feed, Mode.cur, blank]
      · simp [Mode.feed, Mode.cur, blank]
    · simp only [parseStep, Mode.view, at_i]
      by_cases blank : isBlank c = true
      · simp [eol, blank, Mode.feed, ready, here, Mode.cur]
      · simp [eol, blank, Mode.feed, ready]
  | gap n b bs =>
    refine ⟨pre, ?_, ?_⟩
    · by_cases blank : isBlank c = true
      · simp [Mode.feed, Mode.cur, blank]
      · simp [Mode.feed, Mode.cur, blank]
    · simp only [parseStep, Mode.view, at_i]
      by_cases blank : isBlank c = true
      · simp [eol, blank, Mode.feed, ready]
      · simp [eol, blank, Mode.feed, ready, here, Mode.cur, Nat.add_assoc]
  | value n b bs v d =>
    refine ⟨pre, by simp [Mode.feed, Mode.cur], ?_⟩
    simp only [parseStep, Mode.view, at_i]
    simp [eol, Mode.feed, ready]

/-! ## The end of a line -/

lemma saveEnv_unset {p : Nat} {name : Str} (var : s.var = some p) (val : s.val = none)
    (at_p : cstr s.buff p = some name) :
    saveEnv s = some { s with calls := s.calls ++ [⟨name, none⟩] } := by
  simp only [saveEnv, var, val, at_p, Option.bind_eq_bind, Option.bind_some]

lemma saveEnv_set {p q : Nat} {name value : Str} (var : s.var = some p) (val : s.val = some q)
    (at_p : cstr s.buff p = some name) (at_q : cstr s.buff q = some value) :
    saveEnv s = some { s with calls := s.calls ++ [⟨name, some value⟩] } := by
  simp only [saveEnv, var, val, at_p, at_q, Option.bind_eq_bind, Option.bind_some]

/-- A line without a value unsets what was read, from its first byte to the end of the line. -/
lemma step_unset {p : Nat} (eol : isEol c = true) (here : i = p + n.length) (at_p : p = pre.length)
    (buff : s.buff = pre ++ (n ++ c :: tail)) (var : s.var = some p) (val : s.val = none)
    (valEnd : s.valEnd = none) :
    parseStep save s i = some (.next { s with
      buff := pre ++ (n ++ (if save then 0 else c) :: tail), var := none, varEnd := none,
      sets := s.sets + 1, calls := s.calls ++ if save then [⟨cut n, none⟩] else [] }) := by
  have last : i = (pre ++ n).length := by rw [here, at_p, List.length_append]
  have at_i : s.buff[i]? = some c := by
    rw [buff, ← List.append_assoc]
    exact get_at last
  cases save with
  | false => simp [parseStep, at_i, var, val, eol, unset, ready, valEnd, ← buff]
  | true =>
    have put_i : putByte s.buff i 0 = some (pre ++ (n ++ 0 :: tail)) := by
      rw [buff, ← List.append_assoc, ← List.append_assoc]
      exact put_at last
    have call := saveEnv_unset (s := { s with buff := pre ++ (n ++ 0 :: tail) }) var val
      (cstr_at at_p)
    simp only [var, val, valEnd] at call
    simp [parseStep, at_i, var, val, eol, unset, put_i, call, ready, valEnd]

/-- The end of a line with a value. -/
lemma step_value {p q : Nat} (save : Bool) (at_i : s.buff[i]? = some c) (eol : isEol c = true)
    (var : s.var = some o) (varEnd : s.varEnd = some p) (val : s.val = some q)
    (valEnd : s.valEnd = none) :
    parseStep save s i =
      (endValue s i c).bind fun s => (ready save s).bind fun s => some (.next s) := by
  simp only [parseStep, at_i, var, varEnd, val, valEnd, eol, Option.bind_eq_bind, Option.bind_some,
    reduceCtorEq, or_self, false_and, if_false, if_true]
  rfl

/-- A line end behind another byte than a backslash ends the value. -/
lemma endValue_closed (at_j : before i = some j) (read : s.buff[j]? = some d) (other : d ≠ 92) :
    endValue s i c = some { s with valEnd := some i } := by
  simp only [endValue, at_j, read, Option.bind_eq_bind, Option.bind_some, if_neg other]

/-- Setting a value, whose blanks before it are at `p` and which ends at `i`. -/
lemma ready_spec {p q : Nat} (at_o : o = pre.length) (at_p : p = o + n.length)
    (at_q : q = p + (bs.length + 1)) (here : i = q + v.length)
    (buff : s.buff = pre ++ (n ++ b :: bs ++ (v ++ c :: tail))) (var : s.var = some o)
    (varEnd : s.varEnd = some p) (val : s.val = some q) (valEnd : s.valEnd = some i) :
    ready true s = some ⟨pre ++ (n ++ 0 :: bs ++ (v ++ 0 :: tail)), none, none, none, none,
      s.commentStart, s.sets + 1, s.calls ++ [⟨cut n, some (cut v)⟩]⟩ := by
  have put_p : putByte s.buff p 0 = some (pre ++ (n ++ 0 :: bs ++ (v ++ c :: tail))) := by
    rw [buff]
    simp only [List.append_assoc, List.cons_append]
    rw [← List.append_assoc, ← List.append_assoc pre]
    exact put_at (by rw [at_p, at_o, List.length_append])
  have put_q : putByte (pre ++ (n ++ 0 :: bs ++ (v ++ c :: tail))) i 0 =
      some (pre ++ (n ++ 0 :: bs ++ (v ++ 0 :: tail))) := by
    have last : i = (pre ++ (n ++ 0 :: bs) ++ v).length := by
      simp only [List.length_append, List.length_cons]
      omega
    have put := @put_at (pre ++ (n ++ 0 :: bs) ++ v) tail c 0 i last
    simpa only [List.append_assoc, List.cons_append] using put
  have name : cstr (pre ++ (n ++ 0 :: bs ++ (v ++ 0 :: tail))) o = some (cut n) := by
    rw [List.append_assoc]
    exact cstr_at at_o
  have value : cstr (pre ++ (n ++ 0 :: bs ++ (v ++ 0 :: tail))) q = some (cut v) := by
    rw [← List.append_assoc]
    refine cstr_at ?_
    simp only [List.length_append, List.length_cons]
    omega
  have call := saveEnv_set
    (s := { s with buff := pre ++ (n ++ 0 :: bs ++ (v ++ 0 :: tail)) }) var val name value
  simp only [ready, valEnd, varEnd, if_true, Option.bind_eq_bind, Option.bind_some, put_p, put_q]
  rw [← valEnd, ← varEnd, call]
  rfl

/-- A run that only looks forgets the value. -/
lemma ready_dry (valEnd : s.valEnd = some i) :
    ready false s = some ⟨s.buff, none, none, none, none, s.commentStart, s.sets + 1, s.calls⟩ := by
  simp [ready, valEnd]

/-- The end of a line that is not escaped. -/
lemma step_eol (save : Bool) (eol : isEol c = true) (open_ : ¬ m.Escapes)
    (here : i = pre.length + m.cur.length)
    (read : s = m.view (pre ++ m.cur ++ c :: tail) sets calls pre.length) :
    ∃ pre', pre'.length = i + 1 ∧ (save = false → pre' = pre ++ m.cur ++ [c]) ∧
      parseStep save s i = some (.next (Mode.blank.view (pre' ++ tail)
        (sets + m.ended.length) (calls ++ if save then m.ended else []) pre'.length)) := by
  have at_i : (pre ++ m.cur ++ c :: tail)[i]? = some c :=
    get_at (by rw [here, List.length_append])
  have length : ∀ d : UInt8, (pre ++ m.cur ++ [d]).length = i + 1 := by
    intro d
    rw [List.length_append, List.length_append, here]
    rfl
  cases m with
  | blank =>
    refine ⟨_, length c, fun _ => rfl, ?_⟩
    rw [read]
    simp only [parseStep, Mode.view, at_i]
    simp [eol, ready, Mode.ended]
  | comment =>
    refine ⟨_, length c, fun _ => rfl, ?_⟩
    rw [read]
    simp only [parseStep, Mode.view, at_i]
    simp [eol, ready, Mode.ended]
  | name n =>
    refine ⟨_, length (if save then 0 else c), ?_, ?_⟩
    · rintro rfl
      rfl
    · subst read
      rw [step_unset eol here rfl (List.append_assoc _ _ _) rfl rfl rfl]
      simp only [Mode.view, List.append_assoc, List.cons_append, List.nil_append]
      rfl
  | gap n b bs =>
    refine ⟨_, length (if save then 0 else c), ?_, ?_⟩
    · rintro rfl
      rfl
    · subst read
      rw [step_unset eol here rfl (List.append_assoc _ _ _) rfl rfl rfl]
      simp only [Mode.view, List.append_assoc, List.cons_append, List.nil_append]
      rfl
  | value n b bs v d =>
    have at_j : before i = some (pre ++ (n ++ b :: bs ++ v)).length := by
      have last : i = (pre ++ (n ++ b :: bs ++ v)).length + 1 := by
        rw [here]
        simp only [Mode.cur, List.length_append, List.length_cons, List.length_nil]
        omega
      rw [last]
      rfl
    have read_j : s.buff[(pre ++ (n ++ b :: bs ++ v)).length]? = some d := by
      have get := @get_at (pre ++ (n ++ b :: bs ++ v)) (c :: tail) d _ rfl
      rw [read]
      simpa only [Mode.view, Mode.cur, List.append_assoc, List.cons_append, List.nil_append]
        using get
    have closed := @endValue_closed c d i _ s at_j read_j open_
    have step : parseStep save s i =
        (ready save { s with valEnd := some i }).bind fun s => some (.next s) := by
      have at_i : s.buff[i]? = some c := by
        rw [read]
        exact at_i
      rw [step_value save at_i eol (by rw [read]; rfl) (by rw [read]; rfl) (by rw [read]; rfl)
        (by rw [read]; rfl), closed, Option.bind_some]
    cases save with
    | false =>
      refine ⟨_, length c, fun _ => rfl, ?_⟩
      rw [step, ready_dry rfl, read]
      simp only [Mode.view, List.append_assoc, List.cons_append, List.nil_append]
      simp [Mode.ended]
    | true =>
      have whole : s.buff = pre ++ (n ++ b :: bs ++ (v ++ [d] ++ c :: tail)) := by
        rw [read]
        simp only [Mode.view, Mode.cur, List.append_assoc]
      have stop : i = pre.length + n.length + (bs.length + 1) + (v ++ [d]).length := by
        rw [here]
        simp only [Mode.cur, List.length_append, List.length_cons]
        omega
      have set := @ready_spec pre tail n bs (v ++ [d]) b c i pre.length
        { s with valEnd := some i } _ _ rfl rfl rfl stop whole (by rw [read]; rfl)
        (by rw [read]; rfl) (by rw [read]; rfl) rfl
      refine ⟨pre ++ (n ++ 0 :: bs ++ (v ++ [d] ++ [0])), ?_,
        fun no => absurd no.symm Bool.false_ne_true, ?_⟩
      · rw [stop]
        simp only [List.length_append, List.length_cons, List.length_nil]
        omega
      · rw [step, set, read]
        simp only [Mode.view, List.append_assoc, List.cons_append, List.nil_append]
        rfl

/-! ## Runs -/

/-- The loop is at the index `i`, with `tail` left, and the machine is in the mode `m`. -/
structure At (m : Mode) (pre tail : Str) (sets : Nat) (calls : List Setenv) (i : Nat) (s : Parse) :
    Prop where
  here : i = pre.length + m.cur.length
  read : s = m.view (pre ++ m.cur ++ tail) sets calls pre.length

lemma At.feed (h : At m pre (c :: tail) sets calls i s) (save : Bool) (eol : isEol c = false) :
    ∃ pre' s', parseStep save s i = some (.next s') ∧
      At (m.feed c) pre' tail sets calls (i + 1) s' ∧
        pre' ++ (m.feed c).cur = pre ++ m.cur ++ [c] := by
  obtain ⟨pre', keeps, step⟩ := step_feed save eol h.here h.read
  refine ⟨pre', _, step, ⟨?_, ?_⟩, keeps⟩
  · have length := congrArg List.length keeps
    rw [List.length_append, List.length_append, List.length_append, ← h.here] at length
    exact length.symm
  · rw [keeps, List.append_assoc _ [c]]
    rfl

lemma At.eol (h : At m pre (c :: tail) sets calls i s) (save : Bool) (eol : isEol c = true)
    (open_ : ¬ m.Escapes) :
    ∃ pre' s', parseStep save s i = some (.next s') ∧
      At .blank pre' tail (sets + m.ended.length) (calls ++ if save then m.ended else []) (i + 1)
        s' ∧ (save = false → pre' = pre ++ m.cur ++ [c]) := by
  obtain ⟨pre', length, keeps, step⟩ := step_eol save eol open_ h.here h.read
  refine ⟨pre', _, step, ⟨length.symm, ?_⟩, keeps⟩
  rw [Mode.cur, List.append_nil]

/-- A run without escaped line ends in values. -/
lemma At.run (h : At m pre (rest ++ [z]) sets calls i s) (save : Bool) (calm : m.Calm rest) :
    ∃ pre' s', parseLoop save rest.length i s = some (.next s') ∧
      At (m.after rest) pre' [z] (sets + (m.made rest).length)
        (calls ++ if save then m.made rest else []) (i + rest.length) s' ∧
      (save = false → pre' ++ (m.after rest).cur = pre ++ m.cur ++ rest) := by
  induction rest generalizing m pre i s sets calls with
  | nil =>
    refine ⟨pre, s, rfl, ?_, fun _ => ?_⟩
    · rw [Mode.made, ite_self, List.append_nil]
      exact h
    · rw [Mode.after, List.append_nil]
  | cons c rest ih =>
    rw [List.length_cons, parseLoop, Nat.add_comm rest.length, ← Nat.add_assoc]
    by_cases eol : isEol c = true
    · rw [Mode.Calm, if_pos eol] at calm
      obtain ⟨one, s₁, step, next, keeps⟩ := h.eol save eol calm.1
      obtain ⟨two, s₂, run, last, keeps'⟩ := ih next calm.2
      rw [Mode.after, if_pos eol, Mode.made, if_pos eol, List.length_append, ← Nat.add_assoc]
      refine ⟨two, s₂, ?_, ?_, fun dry => ?_⟩
      · simp only [step, run, Option.bind_eq_bind, Option.bind_some]
      · cases save with
        | false => simpa only [Bool.false_eq_true, if_false, List.append_nil] using last
        | true =>
          rw [if_pos rfl, ← List.append_assoc]
          exact last
      · rw [keeps' dry, keeps dry, Mode.cur, List.append_nil, List.append_assoc _ [c]]
        rfl
    · rw [Bool.not_eq_true] at eol
      rw [Mode.Calm, if_neg (by rw [eol]; decide)] at calm
      obtain ⟨one, s₁, step, next, keeps⟩ := h.feed save eol
      obtain ⟨two, s₂, run, last, keeps'⟩ := ih next calm
      rw [Mode.after, if_neg (by rw [eol]; decide), Mode.made, if_neg (by rw [eol]; decide)]
      refine ⟨two, s₂, ?_, last, fun dry => ?_⟩
      · simp only [step, run, Option.bind_eq_bind, Option.bind_some]
      · rw [keeps' dry, keeps, List.append_assoc _ [c]]
        rfl

/-- The line the text ends in. -/
lemma At.lastLine (h : At m pre [z] sets calls i s) (save : Bool) (ends : save = true → z = 0) :
    ∃ s', lastLine save s = some s' ∧ s'.sets = sets + m.last.length ∧
      s'.calls = calls ++ (if save then m.last else []) ∧ (save = false → s'.buff = s.buff) := by
  have read := h.read
  cases m with
  | blank =>
    refine ⟨s, ?_, ?_, ?_, fun _ => rfl⟩
    · simp [Fastboot.lastLine, read, Mode.view]
    · simp [read, Mode.view, Mode.last]
    · simp [read, Mode.view, Mode.last]
  | comment =>
    refine ⟨s, ?_, ?_, ?_, fun _ => rfl⟩
    · simp [Fastboot.lastLine, read, Mode.view]
    · simp [read, Mode.view, Mode.last]
    · simp [read, Mode.view, Mode.last]
  | name n =>
    cases save with
    | false =>
      refine ⟨{ s with sets := s.sets + 1 }, ?_, ?_, ?_, fun _ => rfl⟩
      · simp [Fastboot.lastLine, read, Mode.view]
      · simp [read, Mode.view, Mode.last]
      · simp [read, Mode.view]
    | true =>
      obtain rfl := ends rfl
      have name : cstr (pre ++ (n ++ [0])) pre.length = some (cut n) := cstr_at rfl
      refine ⟨{ s with calls := s.calls ++ [⟨cut n, none⟩], sets := s.sets + 1 }, ?_, ?_, ?_, nofun⟩
      · simp [Fastboot.lastLine, read, Mode.view, saveEnv, Mode.cur, name]
      · simp [read, Mode.view, Mode.last]
      · simp [read, Mode.view, Mode.last]
  | gap n b bs =>
    cases save with
    | false =>
      refine ⟨{ s with sets := s.sets + 1 }, ?_, ?_, ?_, fun _ => rfl⟩
      · simp [Fastboot.lastLine, read, Mode.view]
      · simp [read, Mode.view, Mode.last]
      · simp [read, Mode.view]
    | true =>
      have put : putByte (pre ++ (Mode.cur (.gap n b bs) ++ [z])) (pre.length + n.length) 0 =
          some (pre ++ (n ++ 0 :: (bs ++ [z]))) := by
        have put := @put_at (pre ++ n) (bs ++ [z]) b 0 _ rfl
        simpa only [Mode.cur, List.length_append, List.append_assoc, List.cons_append] using put
      have name : cstr (pre ++ (n ++ 0 :: (bs ++ [z]))) pre.length = some (cut n) := cstr_at rfl
      refine ⟨{ s with
        buff := pre ++ (n ++ 0 :: (bs ++ [z])), calls := s.calls ++ [⟨cut n, none⟩],
        sets := s.sets + 1 }, ?_, ?_, ?_, nofun⟩
      · simp [Fastboot.lastLine, read, Mode.view, put, saveEnv, name]
      · simp [read, Mode.view, Mode.last]
      · simp [read, Mode.view, Mode.last]
  | value n b bs v c =>
    cases save with
    | false =>
      refine ⟨{ s with sets := s.sets + 1 }, ?_, ?_, ?_, fun _ => rfl⟩
      · simp [Fastboot.lastLine, read, Mode.view]
      · simp [read, Mode.view, Mode.last]
      · simp [read, Mode.view]
    | true =>
      obtain rfl := ends rfl
      have put : putByte (pre ++ (Mode.cur (.value n b bs v c) ++ [0])) (pre.length + n.length) 0 =
          some (pre ++ (n ++ 0 :: (bs ++ (v ++ [c] ++ [0])))) := by
        have put := @put_at (pre ++ n) (bs ++ (v ++ [c] ++ [0])) b 0 _ rfl
        simpa only [Mode.cur, List.length_append, List.append_assoc, List.cons_append] using put
      have name : cstr (pre ++ (n ++ 0 :: (bs ++ (v ++ [c] ++ [0])))) pre.length =
        some (cut n) := cstr_at rfl
      have value : cstr (pre ++ (n ++ 0 :: (bs ++ (v ++ [c] ++ [0]))))
          (pre.length + n.length + (bs.length + 1)) = some (cut (v ++ [c])) := by
        have value := @cstr_at (pre ++ (n ++ 0 :: bs)) [] (v ++ [c])
          (pre.length + n.length + (bs.length + 1))
          (by simp only [List.length_append, List.length_cons]; omega)
        simpa only [List.append_assoc, List.cons_append] using value
      refine ⟨{ s with
        buff := pre ++ (n ++ 0 :: (bs ++ (v ++ [c] ++ [0]))),
        calls := s.calls ++ [⟨cut n, some (cut (v ++ [c]))⟩], sets := s.sets + 1 },
        ?_, ?_, ?_, nofun⟩
      · simp only [Fastboot.lastLine, read, Mode.view, List.append_assoc, List.cons_append,
          List.nil_append] at put name value ⊢
        simp [put, saveEnv, name, value]
      · simp [read, Mode.view, Mode.last]
      · simp [read, Mode.view, Mode.last]

/-! ## The functions -/

lemma view_buff {buff : Str} {p : Nat} : (m.view buff sets calls p).buff = buff := by
  cases m with
  | blank | comment | name | gap | value => rfl

/-- What is set for a text. -/
def lineCalls (text : Str) : List Setenv := Mode.blank.made text ++ (Mode.blank.after text).last

/-- A run over a text without escaped line ends in values. -/
lemma parseEnv_calm {e : String} (calm : Mode.blank.Calm text) :
    ∃ r, parseEnv save (text ++ [z]) text.length e = some r ∧
      r.calls = (if save then lineCalls text else []) ∧ (r.ret = 0 ↔ lineCalls text ≠ []) ∧
        (save = false → r.buff = text ++ [z]) := by
  obtain ⟨y, put, ends⟩ : ∃ y, (if save then putByte (text ++ [z]) text.length 0
      else some (text ++ [z])) = some (text ++ [y]) ∧ (if save then y = 0 else y = z) := by
    cases save with
    | false => exact ⟨z, rfl, rfl⟩
    | true => exact ⟨0, put_at rfl, rfl⟩
  have start : At .blank [] (text ++ [y]) 0 [] 0
    ⟨text ++ [y], none, none, none, none, false, 0, []⟩ := ⟨rfl, rfl⟩
  obtain ⟨pre, s, run, at_end, keeps⟩ := start.run save calm
  obtain ⟨s', last, sets, calls, same⟩ := at_end.lastLine save (by
    rintro rfl
    exact ends)
  have parse : parseEnv save (text ++ [z]) text.length e =
      if s'.sets = 0 then some ⟨1, "No variables set", s'.buff, s'.calls⟩
      else some ⟨0, e, s'.buff, s'.calls⟩ := by
    cases save with
    | false =>
      obtain rfl : y = z := ends
      simp [parseEnv, run, last]
    | true =>
      simp only [if_true] at put
      simp [parseEnv, put, run, last]
  have whole : s'.calls = if save then lineCalls text else [] := by
    rw [calls]
    cases save with
    | false => rfl
    | true => rfl
  have kept : save = false → s'.buff = text ++ [z] := by
    rintro rfl
    obtain rfl : y = z := ends
    have keeps := keeps rfl
    rw [same rfl, at_end.read, view_buff, keeps]
    rfl
  have count : s'.sets = 0 ↔ lineCalls text = [] := by
    rw [sets, lineCalls, List.append_eq_nil_iff, ← List.length_eq_zero_iff,
      ← List.length_eq_zero_iff]
    omega
  rw [parse]
  split
  case isTrue none =>
    exact ⟨_, rfl, whole, iff_of_false Nat.one_ne_zero (absurd (count.1 none)), kept⟩
  case isFalse some =>
    exact ⟨_, rfl, whole, iff_of_true rfl fun none => some (count.2 none), kept⟩

/-- What is seen in the first run is set in the second. -/
lemma saveenvToPtn_calm (calm : Mode.blank.Calm text) :
    ∃ r, saveenvToPtn (text ++ [z]) text.length = some r ∧ r.calls = lineCalls text := by
  obtain ⟨dry, run, calls, ret, buff⟩ :=
    @parseEnv_calm false text z "Unknown Error" calm
  by_cases none : lineCalls text = []
  · have failed : dry.ret ≠ 0 := fun ok => ret.1 ok none
    refine ⟨{ dry with ret := 1 }, ?_, ?_⟩
    · simp [saveenvToPtn, run, failed]
    · rw [none]
      exact calls
  · have ok : dry.ret = 0 := ret.2 none
    obtain ⟨r, run', calls', -, -⟩ := @parseEnv_calm true text z dry.errString calm
    refine ⟨r, ?_, calls'⟩
    simp [saveenvToPtn, run, ok, buff rfl, run']

/-! ## Escaped line ends -/

/-- The state at the end of a pass. -/
def Step.state : Step → Parse
  | next s | internalError s => s

/-- Blanks stay where they are. -/
lemma putByte_blank {buff buff' : Str} {p : Nat} (put : putByte buff p 32 = some buff')
    (here : buff[j]? = some 32) : buff'[j]? = some 32 := by
  rw [putByte] at put
  split at put
  case isTrue inside =>
    cases put
    by_cases same : p = j
    · subst same
      rw [List.getElem?_set_self inside]
    · rw [List.getElem?_set_ne same, here]
  case isFalse => cases put

/-- The escaping backslash becomes a blank. -/
lemma endValue_escaped (at_j : before i = some j) (read : s.buff[j]? = some 92)
    (run : endValue s i c = some s') : s'.buff[j]? = some 32 := by
  simp only [endValue, at_j, read, Option.bind_eq_bind, Option.bind_some, if_true,
    Option.bind_eq_some_iff] at run
  obtain ⟨buff₁, -, buff₂, -, buff₃, put, same⟩ := run
  cases same
  rw [putByte] at put
  split at put
  case isTrue inside =>
    cases put
    exact List.getElem?_set_self inside
  case isFalse => cases put

lemma dosEnd_blank {buff buff' : Str} (here : buff[j]? = some 32)
    (run : dosEnd buff i c = some buff') : buff'[j]? = some 32 := by
  rw [dosEnd] at run
  split at run
  · obtain ⟨e, -, run⟩ := Option.bind_eq_some_iff.1 run
    split at run
    · exact putByte_blank run here
    · cases run
      exact here
  · cases run
    exact here

lemma endValue_blank (here : s.buff[j]? = some 32) (run : endValue s i c = some s') :
    s'.buff[j]? = some 32 := by
  simp only [endValue, Option.bind_eq_bind, Option.bind_eq_some_iff] at run
  obtain ⟨k, -, d, -, run⟩ := run
  split at run
  · obtain ⟨buff₁, first, run⟩ := Option.bind_eq_some_iff.1 run
    obtain ⟨buff₂, second, run⟩ := Option.bind_eq_some_iff.1 run
    obtain ⟨buff₃, third, same⟩ := Option.bind_eq_some_iff.1 run
    cases same
    exact putByte_blank third (putByte_blank second (dosEnd_blank here first))
  · cases run
    exact here

lemma ready_buff (run : ready false s = some s') : s'.buff = s.buff := by
  rw [ready] at run
  split at run
  · cases run
    rfl
  · cases run
    rfl

lemma unset_buff (run : unset false s i = some s') : s'.buff = s.buff := by
  cases run
  rfl

/-- A pass of the run that only looks writes blanks, if anything. -/
lemma parseStep_blank {r : Step} (here : s.buff[j]? = some 32)
    (run : parseStep false s i = some r) : r.state.buff[j]? = some 32 := by
  have last : ∀ s₁ : Parse, s₁.buff[j]? = some 32 →
      (ready false s₁).bind (fun s₂ => some (Step.next s₂)) = some r →
        r.state.buff[j]? = some 32 := by
    intro s₁ here' run
    obtain ⟨s₂, rdy, same⟩ := Option.bind_eq_some_iff.1 run
    cases same
    rw [Step.state, ready_buff rdy]
    exact here'
  simp only [parseStep, Option.bind_eq_bind, Option.bind_eq_some_iff] at run
  obtain ⟨c, -, run⟩ := run
  split at run
  · refine last _ ?_ run
    split
    · exact here
    · split
      · exact here
      · exact here
  · split at run
    · obtain ⟨s₁, un, run⟩ := Option.bind_eq_some_iff.1 run
      refine last _ ?_ run
      rw [unset_buff un]
      exact here
    · split at run
      · refine last _ ?_ run
        split
        · exact here
        · exact here
      · split at run
        · refine last _ ?_ run
          split
          · exact here
          · exact here
        · split at run
          · split at run
            · obtain ⟨s₁, value, run⟩ := Option.bind_eq_some_iff.1 run
              exact last _ (endValue_blank here value) run
            · exact last _ here run
          · cases run
            exact here

/-- So does a run. -/
lemma parseLoop_blank {r : Step} {k : Nat} (here : s.buff[j]? = some 32)
    (run : parseLoop false k i s = some r) : r.state.buff[j]? = some 32 := by
  induction k generalizing i s with
  | zero =>
    cases run
    exact here
  | succ k ih =>
    obtain ⟨r₁, step, run⟩ := Option.bind_eq_some_iff.1 run
    have here' := parseStep_blank here step
    cases r₁ with
    | next s₁ => exact ih here' run
    | internalError s₁ =>
      cases run
      exact here'

/-- An escaped line end in a value leaves a blank for its backslash. -/
lemma At.escaped {r : Step} (h : At m pre (c :: tail) sets calls i s) (eol : isEol c = true)
    (escapes : m.Escapes) (run : parseStep false s i = some r) :
    ∃ j : Nat, (pre ++ m.cur)[j]? = some 92 ∧ r.state.buff[j]? = some 32 := by
  cases m with
  | blank | comment | name | gap => exact escapes.elim
  | value n b bs v d =>
    obtain rfl : d = 92 := escapes
    have here := h.here
    have last : i = (pre ++ (n ++ b :: bs ++ v)).length + 1 := by
      rw [here]
      simp only [Mode.cur, List.length_append, List.length_cons, List.length_nil]
      omega
    have read_j : (pre ++ Mode.cur (.value n b bs v 92))[
        (pre ++ (n ++ b :: bs ++ v)).length]? = some 92 := by
      rw [Mode.cur, ← List.append_assoc]
      exact get_at rfl
    have at_i : s.buff[i]? = some c := by
      rw [h.read]
      exact get_at (by rw [here, List.length_append])
    have at_j : s.buff[(pre ++ (n ++ b :: bs ++ v)).length]? = some 92 := by
      rw [h.read]
      exact get_left read_j
    have step := step_value false at_i eol (by rw [h.read]; rfl) (by rw [h.read]; rfl)
      (by rw [h.read]; rfl) (by rw [h.read]; rfl)
    rw [step] at run
    obtain ⟨s₁, value, run⟩ := Option.bind_eq_some_iff.1 run
    obtain ⟨s₂, rdy, same⟩ := Option.bind_eq_some_iff.1 run
    cases same
    refine ⟨_, read_j, ?_⟩
    rw [Step.state, ready_buff rdy]
    exact endValue_escaped (by rw [last]; rfl) at_j value

/-- A run over a text with an escaped line end in a value leaves another text. -/
lemma At.spoiled {r : Step} (h : At m pre (rest ++ [z]) sets calls i s) (spoilt : ¬ m.Calm rest)
    (run : parseLoop false rest.length i s = some r) :
    ∃ j : Nat, (pre ++ m.cur ++ rest)[j]? = some 92 ∧ r.state.buff[j]? = some 32 := by
  induction rest generalizing m pre i s sets calls with
  | nil => exact absurd trivial spoilt
  | cons c rest ih =>
    obtain ⟨r₁, step, run⟩ := Option.bind_eq_some_iff.1 run
    have after : ∀ pre' m' sets' calls' s₁, pre' ++ Mode.cur m' = pre ++ m.cur ++ [c] →
        parseStep false s i = some (.next s₁) →
        At m' pre' (rest ++ [z]) sets' calls' (i + 1) s₁ → ¬ m'.Calm rest →
        ∃ j : Nat, (pre ++ m.cur ++ (c :: rest))[j]? = some 92 ∧ r.state.buff[j]? = some 32 := by
      intro pre' m' sets' calls' s₁ keeps step' next spoilt'
      rw [step] at step'
      cases step'
      obtain ⟨j, was, is⟩ := ih next spoilt' run
      rw [keeps, List.append_assoc _ [c]] at was
      exact ⟨j, was, is⟩
    by_cases eol : isEol c = true
    · rw [Mode.Calm, if_pos eol] at spoilt
      by_cases escapes : m.Escapes
      · obtain ⟨j, was, is⟩ := h.escaped eol escapes step
        refine ⟨j, get_left was, ?_⟩
        cases r₁ with
        | next s₁ => exact parseLoop_blank is run
        | internalError s₁ =>
          cases run
          exact is
      · obtain ⟨pre', s₁, step', next, keeps⟩ := h.eol false eol escapes
        refine after pre' .blank _ _ s₁ ?_ step' next fun calm => spoilt ⟨escapes, calm⟩
        rw [keeps rfl, Mode.cur, List.append_nil]
    · rw [Bool.not_eq_true] at eol
      rw [Mode.Calm, if_neg (by rw [eol]; decide)] at spoilt
      obtain ⟨pre', s₁, step', next, keeps⟩ := h.feed false eol
      exact after pre' _ _ _ s₁ keeps step' next spoilt

/-- A text with an escaped line end in a value is not left as it is. -/
lemma parseEnv_spoiled {e : String} {r : Parsed} (spoilt : ¬ Mode.blank.Calm text)
    (run : parseEnv false (text ++ [z]) text.length e = some r) :
    r.buff.take text.length ≠ text := by
  have start : At .blank [] (text ++ [z]) 0 [] 0
    ⟨text ++ [z], none, none, none, none, false, 0, []⟩ := ⟨rfl, rfl⟩
  simp only [parseEnv, Option.bind_eq_bind, Bool.false_eq_true, if_false, Option.bind_some,
    Option.bind_eq_some_iff] at run
  obtain ⟨r', loop, run⟩ := run
  obtain ⟨j, was, is⟩ := start.spoiled spoilt loop
  have same : r.buff = r'.state.buff := by
    cases r' with
    | internalError s =>
      cases run
      rfl
    | next s =>
      obtain ⟨s', last, run⟩ := Option.bind_eq_some_iff.1 run
      have kept : s'.buff = s.buff := by
        rw [lastLine] at last
        split at last
        · cases last
          rfl
        · cases last
          rfl
      split at run
      · cases run
        exact kept
      · cases run
        exact kept
  intro whole
  change text[j]? = some 92 at was
  obtain ⟨inside, -⟩ := List.getElem?_eq_some_iff.1 was
  have at_j : (r.buff.take text.length)[j]? = some 32 := by
    rw [List.getElem?_take_of_lt inside, same, is]
  rw [whole, was] at at_j
  exact absurd at_j (by decide)

end Imx.Fastboot
