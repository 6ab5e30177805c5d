import Sieve.Analyzer.DecodedLines
import Sieve.Analyzer.SanityCheck
import Sieve.Server.LearnProgress

/-!
# The log of a learning run

What the learn server logs, read by the sanity check of the analyzer.

* `statusOf`, `sane_of_allFit`: notifications that fit make a sane log;
* `statuses_logLine`: the check sees one status in the lines of a record, if it bears no mark that the
  check looks for;
* `LearnsWell`: what is asked of the server and its log;
* `learnsWell_of_unmarked`: this holds in the runs in which no reported text bears such a mark.
-/

namespace Sieve.Analyzer

open Sieve.Library Sieve.Server

/-! ### The statuses of what is sent -/

/-- What the check is to see of a record. -/
def statusOf : Notification → StatusLine
  | .beforeRestWrite id => .beforeRestWrite id
  | .afterRestWrite id _ => .afterRestWrite id
  | .beforeControllerRecv id _ _ _ => .beforeHear id
  | .afterControllerRecv id => .afterHear id
  | .beforeControllerReconcile f => .beforeReconcile (String.ofList f)
  | .afterControllerReconcile f => .afterReconcile (String.ofList f)
  | _ => .other

theorem ongoing_map_iff (f : Text) (past : List Notification) :
    Ongoing (String.ofList f) (past.map statusOf) = true ↔ OngoingIn f past := by
  induction past with
  | nil => simp [Ongoing, OngoingIn, historyIn]
  | cons notification past ih =>
    cases notification with
    | beforeControllerReconcile g =>
      by_cases hg : g = f
      · rw [hg]
        exact iff_of_true (by simp [statusOf, Ongoing]) ongoingIn_begins
      · rw [ongoingIn_cons_of_ne (by simpa [Notification.key] using hg), ← ih]
        simp [statusOf, Ongoing, hg, String.ofList_inj]
    | afterControllerReconcile g =>
      by_cases hg : g = f
      · rw [hg]
        exact iff_of_false (by simp [statusOf, Ongoing]) not_ongoingIn_ends
      · rw [ongoingIn_cons_of_ne (by simpa [Notification.key] using hg), ← ih]
        simp [statusOf, Ongoing, hg, String.ofList_inj]
    | _ =>
      rw [ongoingIn_cons_of_ne (by simp [Notification.key]), ← ih]
      rfl

section History

variable {past : List Notification} {key : LearnKey} {before : Notification}
  {begun line : StatusLine}

/-- What is said of a key without a history has not been seen. -/
theorem not_mem_of_history_nil (hhistory : historyIn key past = [])
    (hkey : ∀ notification, statusOf notification = line → notification.key = some key) :
    line ∉ past.map statusOf := by
  intro hmem
  obtain ⟨m, hm, hstatus⟩ := List.mem_map.mp hmem
  have hin := mem_historyIn.mpr ⟨hm, hkey m hstatus⟩
  rw [hhistory] at hin
  cases hin

/-- What has only begun has been seen to begin, and not to end. -/
theorem mem_of_history_singleton (hhistory : historyIn key past = [before])
    (hbegun : statusOf before = begun) (hne : begun ≠ line)
    (hkey : ∀ notification, statusOf notification = line → notification.key = some key) :
    begun ∈ past.map statusOf ∧ line ∉ past.map statusOf := by
  have hbefore : before ∈ historyIn key past := by
    rw [hhistory]
    exact List.mem_singleton_self before
  refine ⟨List.mem_map.mpr ⟨before, (mem_historyIn.mp hbefore).1, hbegun⟩, fun hmem => ?_⟩
  obtain ⟨m, hm, hstatus⟩ := List.mem_map.mp hmem
  have hin := mem_historyIn.mpr ⟨hm, hkey m hstatus⟩
  rw [hhistory, List.mem_singleton] at hin
  rw [hin, hbegun] at hstatus
  exact hne hstatus

end History

theorem fits_statusOf {past : List Notification} {notification : Notification}
    (h : FitsSent past notification) : Fits (past.map statusOf) (statusOf notification) := by
  cases notification with
  | beforeControllerReconcile f =>
    show Ongoing _ _ = false
    rw [← Bool.not_eq_true, ongoing_map_iff]
    exact h
  | afterControllerReconcile f => exact (ongoing_map_iff f past).mpr h
  | beforeRestWrite id =>
    refine not_mem_of_history_nil (h.1 .restWrite id rfl) fun m hstatus => ?_
    cases m <;> cases hstatus
    rfl
  | beforeControllerRecv id _ _ _ =>
    refine not_mem_of_history_nil (h.1 .hear id rfl) fun m hstatus => ?_
    cases m <;> cases hstatus
    rfl
  | afterRestWrite id report =>
    obtain ⟨before, hbegins, hhistory⟩ := h.2 .restWrite id rfl
    refine mem_of_history_singleton hhistory ?_ (by simp) fun m hstatus => ?_
    · cases before <;> cases hbegins
      rfl
    · cases m <;> cases hstatus
      rfl
  | afterControllerRecv id =>
    obtain ⟨before, hbegins, hhistory⟩ := h.2 .hear id rfl
    refine mem_of_history_singleton hhistory ?_ (by simp) fun m hstatus => ?_
    · cases before <;> cases hbegins
      rfl
    · cases m <;> cases hstatus
      rfl
  | _ => trivial

theorem sane_of_allFit {past : List Notification} (h : AllFit past) :
    Sane (past.map statusOf) := by
  induction past with
  | nil => trivial
  | cons notification past ih => exact ⟨fits_statusOf h.1, ih h.2⟩

/-! ### Lines that say nothing -/

/-- The statuses that the check looks at. -/
def telling (lines : List StatusLine) : List StatusLine := lines.filter fun line => line ≠ .other

theorem mem_telling {line : StatusLine} (hline : line ≠ .other) {lines : List StatusLine} :
    line ∈ telling lines ↔ line ∈ lines := by
  simp [telling, hline]

theorem ongoing_telling (f : String) (past : List StatusLine) :
    Ongoing f (telling past) = Ongoing f past := by
  induction past with
  | nil => rfl
  | cons line past ih =>
    cases line with
    | beforeReconcile g =>
      show (g == f || Ongoing f (telling past)) = _
      rw [ih]
      rfl
    | afterReconcile g =>
      show (g != f && Ongoing f (telling past)) = _
      rw [ih]
      rfl
    | _ => exact ih

theorem fits_telling (past : List StatusLine) (line : StatusLine) :
    Fits (telling past) line ↔ Fits past line := by
  cases line <;> simp only [Fits, ongoing_telling, mem_telling, ne_eq, reduceCtorEq,
    not_false_eq_true]

/-- Lines that say nothing do not matter. -/
theorem sane_telling (lines : List StatusLine) : Sane (telling lines) ↔ Sane lines := by
  induction lines with
  | nil => rfl
  | cons line lines ih =>
    by_cases hline : line = .other
    · rw [hline, Sane, ← ih]
      simp [telling, Fits]
    · have hcons : telling (line :: lines) = line :: telling lines := by
        simp [telling, hline]
      rw [hcons, Sane, Sane, ih, fits_telling]

/-! ### The lines of a record -/

/-- The marks that the check looks for. -/
def checkedMarks : List Text :=
  [SIEVE_BEFORE_REST_WRITE_MARK, SIEVE_AFTER_REST_WRITE_MARK, SIEVE_BEFORE_HEAR_MARK,
    SIEVE_AFTER_HEAR_MARK, SIEVE_BEFORE_RECONCILE_MARK, SIEVE_AFTER_RECONCILE_MARK]

/-- No text that is reported bears a mark that the check looks for, and the name of a reconciler is one
field of one line. -/
structure Unmarked (notification : Notification) : Prop where
  marks : ∀ text ∈ notification.texts, ∀ mark ∈ checkedMarks, ¬ mark <:+: text
  names : ∀ f, notification.key = some (.round f) → '\t' ∉ f ∧ '\n' ∉ f ∧ '\r' ∉ f

theorem isMark_of_checked {mark : Text} (h : mark ∈ checkedMarks) : IsMark mark := by
  simp only [checkedMarks, List.mem_cons, List.not_mem_nil, or_false] at h
  obtain rfl | rfl | rfl | rfl | rfl | rfl := h <;> exact ⟨⟨_, rfl⟩, by decide⟩

section Records

variable {stamp : Stamp} {count : ℤ} {notification : Notification}

/-- What a field is. -/
theorem mem_fields {field : Text} (h : field ∈ notification.fields count) :
    (∃ n, field = formatInt n) ∨ field ∈ notification.texts ∨
      field = "Get".toList ∨ field = "List".toList := by
  cases notification with
  | beforeControllerReconcile f | afterControllerReconcile f =>
    obtain rfl | hrest := List.mem_cons.mp h
    · exact Or.inr (Or.inl List.mem_cons_self)
    · exact Or.inl ⟨count, List.mem_singleton.mp hrest⟩
  | beforeRestWrite id | beforeRestRead id | beforeAnnotatedAPICall id | afterControllerRecv id =>
    exact Or.inl ⟨id, List.mem_singleton.mp h⟩
  | afterRestWrite id _ | afterRestRead id _ | afterAnnotatedAPICall id _
  | beforeControllerRecv id _ _ _ =>
    obtain rfl | hrest := List.mem_cons.mp h
    · exact Or.inl ⟨id, rfl⟩
    · exact Or.inr (Or.inl hrest)
  | afterCacheGet | afterCacheList =>
    obtain rfl | hrest := List.mem_cons.mp h
    · simp
    · exact Or.inr (Or.inl hrest)

theorem Unmarked.fields (h : Unmarked notification) {mark field : Text} (hmark : mark ∈ checkedMarks)
    (hfield : field ∈ notification.fields count) : ¬ mark <:+: field := by
  obtain ⟨n, rfl⟩ | htext | rfl | rfl := mem_fields hfield
  · exact not_infix_formatInt (isMark_of_checked hmark) n
  · exact h.marks field htext mark hmark
  all_goals
    intro hwithin
    obtain ⟨rest, rfl⟩ := (isMark_of_checked hmark).head
    exact absurd (hwithin.mem List.mem_cons_self) (by decide)

/-- A checked mark in the line is in its own mark. -/
theorem Unmarked.infix_iff (h : Unmarked notification) {mark : Text} (hmark : mark ∈ checkedMarks) :
    mark <:+: logLine stamp count notification ↔ mark <:+: notification.mark := by
  rw [infix_logLine_iff (isMark_of_checked hmark)]
  constructor
  · rintro ⟨field, hfield, hwithin⟩
    obtain rfl | hrest := List.mem_cons.mp hfield
    · exact hwithin
    · exact absurd hwithin (h.fields hmark hrest)
  · exact fun hwithin => ⟨_, List.mem_cons_self, hwithin⟩

end Records

/-- A list with separators before all parts but the first. -/
theorem intercalate_cons_eq {α : Type} (x : α) (l : List α) (ls : List (List α)) :
    [x].intercalate (l :: ls) = l ++ ls.flatMap (List.cons x) := by
  induction ls generalizing l with
  | nil => simp
  | cons l' ls ih => rw [List.intercalate_cons_cons, ih, List.flatMap_cons]; simp

/-- The first line of a text that begins plainly, and the others. -/
theorem readlines_first {start rest : Text} (hn : '\n' ∉ start) (hr : '\r' ∉ start) :
    ∃ more lines, readlines (start ++ rest ++ ['\n']) = (start ++ more ++ ['\n']) :: lines ∧
      '\n' ∉ more ∧ (∀ rest', rest = '\t' :: rest' → ∃ more', more = '\t' :: more') ∧
      (rest = [] → more = []) ∧
      ∀ line ∈ lines, line <:+: translateNewlines (rest ++ ['\n']) := by
  obtain ⟨translated, htranslated⟩ := translateNewlines_newline rest
  have hmem : '\n' ∈ translateNewlines (rest ++ ['\n']) := by
    rw [htranslated]
    simp
  obtain ⟨more, others, heq, hmore⟩ := List.eq_append_cons_of_mem hmem
  refine ⟨more, splitLines others, ?_, hmore, ?_, ?_, fun line hline => ?_⟩
  · rw [List.append_assoc, readlines, translateNewlines_append_of_not_mem hr, heq,
      ← List.append_assoc, splitLines_first (by simp [hn, hmore])]
  · rintro rest' rfl
    rw [List.cons_append, translateNewlines_cons (by decide)] at heq
    cases more with
    | nil => cases heq
    | cons c more' => exact ⟨more', by rw [(List.cons.inj heq).1]⟩
  · rintro rfl
    cases more with
    | nil => rfl
    | cons c more' => simp [translateNewlines] at heq
  · rw [heq]
    exact (infix_of_mem_splitLines hline).trans
      ((List.suffix_cons _ _).trans (List.suffix_append _ _)).isInfix

/-- The first two tokens of a line that begins with its mark and a field. -/
theorem tokensFrom_first {stamp : Stamp} {mark head more : Text} (hmark : IsMark mark)
    (htab : '\t' ∉ head) (hhead : '\n' ∉ head) (hmore : '\n' ∉ more)
    (hshape : more = [] ∨ ∃ more', more = '\t' :: more') :
    ∃ tokens, tokensFrom mark (stamp.1 ++ mark ++ '\t' :: head ++ more ++ ['\n']) =
      .ok (mark :: head :: tokens) ∧ (more ≠ [] → tokens ≠ []) := by
  obtain ⟨⟨rest, rfl⟩, hmarkTab, hmarkLine⟩ := hmark
  have hfirst : fromFirst ('[' :: rest)
      (stamp.1 ++ '[' :: rest ++ '\t' :: head ++ more ++ ['\n']) =
        some ('[' :: rest ++ '\t' :: head ++ more ++ ['\n']) := by
    simp only [List.append_assoc]
    rw [fromFirst_append bracket_not_mem_stamp, fromFirst_of_prefix (List.prefix_append _ _)]
  have hstrip : strip '\n' ('[' :: rest ++ '\t' :: head ++ more ++ ['\n']) =
      '[' :: rest ++ '\t' :: (head ++ more) := by
    rw [strip_append_singleton]
    · simp
    · simp only [List.mem_append, List.mem_cons, not_or] at hmarkLine ⊢
      exact ⟨⟨hmarkLine, by decide, hhead⟩, hmore⟩
  rw [tokensFrom, hfirst]
  simp only [hstrip]
  rw [List.splitOn_append_cons_self_of_not_mem hmarkTab]
  obtain rfl | ⟨more', rfl⟩ := hshape
  · rw [List.append_nil, List.splitOn_eq_singleton htab]
    exact ⟨[], rfl, fun hne => absurd rfl hne⟩
  · rw [List.splitOn_append_cons_self_of_not_mem htab]
    exact ⟨_, rfl, fun _ => List.splitOn_ne_nil _ _⟩

/-- A line without a checked mark says nothing. -/
theorem statusLine_other {line : Text} (h : ∀ mark ∈ checkedMarks, ¬ mark <:+: line) :
    statusLine line = .ok .other := by
  simp only [checkedMarks, List.forall_mem_cons] at h
  obtain ⟨h₁, h₂, h₃, h₄, h₅, h₆, _⟩ := h
  rw [statusLine, if_neg h₁, if_neg h₂, if_neg h₃, if_neg h₄, if_neg h₅, if_neg h₆]

section Records

variable {stamp : Stamp} {count : ℤ} {notification : Notification}

theorem not_mem_stamp {c : Char} (h : ¬ (c.isDigit = true ∨ c = '/' ∨ c = ':' ∨ c = ' ')) :
    c ∉ stamp.1 :=
  fun hmem => h (stamp.2 c hmem)

theorem mark_oneLine : '\n' ∉ notification.mark ∧ '\r' ∉ notification.mark := by
  cases notification <;> (dsimp only [Notification.mark]; decide)

theorem logLine_eq {head : Text} {tail : List Text}
    (hfields : notification.fields count = head :: tail) :
    logLine stamp count notification =
      stamp.1 ++ notification.mark ++ '\t' :: head ++ tail.flatMap (List.cons '\t') ++ ['\n'] := by
  rw [logLine, hfields, intercalate_cons_eq, List.flatMap_cons]
  simp

/-- **The first line of a record has its mark and its first field**, and the others have no mark. -/
theorem readlines_logLine (h : Unmarked notification) {head : Text} {tail : List Text}
    (hfields : notification.fields count = head :: tail) (htab : '\t' ∉ head) (hn : '\n' ∉ head)
    (hr : '\r' ∉ head) :
    ∃ first lines, readlines (logLine stamp count notification) = first :: lines ∧
      (∀ mark ∈ checkedMarks, mark <:+: first ↔ mark <:+: notification.mark) ∧
      (∃ tokens, tokensFrom notification.mark first = .ok (notification.mark :: head :: tokens) ∧
        (tail ≠ [] → tokens ≠ [])) ∧
      ∀ line ∈ lines, ∀ mark ∈ checkedMarks, ¬ mark <:+: line := by
  have hstart : ∀ c, c = '\n' ∨ c = '\r' →
      c ∉ stamp.1 ++ notification.mark ++ '\t' :: head := by
    have hmark := @mark_oneLine notification
    rintro c (rfl | rfl)
    · simp [hmark.1, hn, @not_mem_stamp stamp '\n' (by decide)]
    · simp [hmark.2, hr, @not_mem_stamp stamp '\r' (by decide)]
  obtain ⟨more, lines, hlines, hmore, htabbed, hnil, hothers⟩ :=
    @readlines_first _ (tail.flatMap (List.cons '\t')) (hstart _ (Or.inl rfl)) (hstart _ (Or.inr rfl))
  rw [← logLine_eq hfields] at hlines
  have hshape : (tail ≠ [] → more ≠ []) ∧ (more = [] ∨ ∃ more', more = '\t' :: more') := by
    cases tail with
    | nil => exact ⟨fun hne => absurd rfl hne, Or.inl (hnil rfl)⟩
    | cons field tail =>
      obtain ⟨more', rfl⟩ := htabbed _ rfl
      exact ⟨fun _ => List.cons_ne_nil _ _, Or.inr ⟨more', rfl⟩⟩
  obtain ⟨tokens, htokens, hne⟩ :=
    @tokensFrom_first stamp notification.mark head more isMark_mark htab hn hmore hshape.2
  refine ⟨_, lines, hlines, fun mark hmark => ⟨fun hwithin => ?_, fun hwithin => ?_⟩,
    ⟨tokens, htokens, fun htail => hne (hshape.1 htail)⟩, fun line hline mark hmark hwithin => ?_⟩
  · rw [← @Unmarked.infix_iff stamp count _ h mark hmark]
    refine infix_of_mem_readlines ?_ (isMark_of_checked hmark).plain.2 hwithin
    rw [hlines]
    exact List.mem_cons_self
  · refine hwithin.trans ?_
    simp only [List.append_assoc]
    exact List.infix_append' _ _ _
  · have hrest := infix_of_infix_translateNewlines (isMark_of_checked hmark).plain.2
      (hwithin.trans (hothers line hline))
    rw [infix_append_cons_iff (isMark_of_checked hmark).plain.2] at hrest
    obtain ⟨rest, rfl⟩ := (isMark_of_checked hmark).head
    obtain hrest | hnil := hrest
    · have hin : '[' :: rest <:+: ['\t'].intercalate ([] :: tail) := by
        rwa [intercalate_cons_eq]
      rw [infix_intercalate_iff (isMark_of_checked hmark).plain.1 (List.cons_ne_nil _ _)] at hin
      obtain ⟨field, hfield, hin⟩ := hin
      obtain rfl | hfield := List.mem_cons.mp hfield
      · simp at hin
      · refine @Unmarked.fields count notification h _ _ hmark ?_ hin
        rw [hfields]
        exact List.mem_cons_of_mem _ hfield
    · simp at hnil

end Records

/-! ### The status of a record -/

theorem infix_mark_iff {mark : Text} (hmark : mark ∈ checkedMarks) (notification : Notification) :
    mark <:+: notification.mark ↔ mark = notification.mark := by
  simp only [checkedMarks, List.mem_cons, List.not_mem_nil, or_false] at hmark
  obtain rfl | rfl | rfl | rfl | rfl | rfl := hmark <;> cases notification <;>
    (dsimp only [Notification.mark]; decide)

section Status

variable {first own head : Text} {tokens : List Text}

/-- The id is found behind whichever of the two marks is there. -/
theorem parseIdOnly_first {before after : Text} {id : ℤ} (hafter : after <:+: first ↔ after = own)
    (hown : own = after ∨ own = before)
    (htokens : tokensFrom own first = .ok (own :: formatInt id :: tokens)) :
    parseIdOnly before after first = .ok id := by
  by_cases hwithin : after <:+: first
  · rw [parseIdOnly, if_pos hwithin, hafter.mp hwithin, htokens]
    exact toInt_formatInt id
  · have hbefore : own = before := hown.resolve_left fun heq => hwithin (hafter.mpr heq.symm)
    rw [parseIdOnly, if_neg hwithin, ← hbefore, htokens]
    exact toInt_formatInt id

/-- The reconciler is found behind whichever of the two marks is there. -/
theorem parseReconcile_first (hbefore : SIEVE_BEFORE_RECONCILE_MARK <:+: first ↔
      SIEVE_BEFORE_RECONCILE_MARK = own)
    (hown : own = SIEVE_BEFORE_RECONCILE_MARK ∨ own = SIEVE_AFTER_RECONCILE_MARK)
    (htokens : tokensFrom own first = .ok (own :: head :: tokens)) (hne : tokens ≠ []) :
    ∃ event, parseReconcile first = .ok event ∧ event.reconcileFun = head := by
  obtain ⟨number, more, rfl⟩ := List.exists_cons_of_ne_nil hne
  by_cases hwithin : SIEVE_BEFORE_RECONCILE_MARK <:+: first
  · refine ⟨⟨true, head, number⟩, ?_, rfl⟩
    rw [parseReconcile, if_pos hwithin, hbefore.mp hwithin, htokens]
    rfl
  · have hafter : own = SIEVE_AFTER_RECONCILE_MARK :=
      hown.resolve_left fun heq => hwithin (hbefore.mpr heq.symm)
    refine ⟨⟨false, head, number⟩, ?_, rfl⟩
    rw [parseReconcile, if_neg hwithin, ← hafter, htokens]
    rfl

/-- The check takes the branch of the mark. -/
theorem statusLine_first {notification : Notification} {count : ℤ} {tail : List Text}
    (hmarks : ∀ mark ∈ checkedMarks, mark <:+: first ↔ mark = notification.mark)
    (hfields : notification.fields count = head :: tail)
    (htokens : tokensFrom notification.mark first = .ok (notification.mark :: head :: tokens))
    (htail : tail ≠ [] → tokens ≠ []) : statusLine first = .ok (statusOf notification) := by
  simp only [checkedMarks, List.forall_mem_cons] at hmarks
  obtain ⟨h₁, h₂, h₃, h₄, h₅, h₆, _⟩ := hmarks
  have hskip : ∀ {mark}, (mark <:+: first ↔ mark = notification.mark) → mark ≠ notification.mark →
      ¬ mark <:+: first := fun hiff hne hwithin => hne (hiff.mp hwithin)
  cases notification with
  | beforeRestWrite id =>
    obtain ⟨rfl, rfl⟩ := List.cons.inj hfields
    have hparse : parseControllerWriteIdOnly first = .ok id :=
      parseIdOnly_first h₂ (Or.inr rfl) htokens
    rw [statusLine, if_pos (h₁.mpr rfl), hparse]
    rfl
  | afterRestWrite id report =>
    obtain ⟨rfl, rfl⟩ := List.cons.inj hfields
    have hparse : parseControllerWriteIdOnly first = .ok id :=
      parseIdOnly_first h₂ (Or.inl rfl) htokens
    rw [statusLine, if_neg (hskip h₁ (by dsimp only [Notification.mark]; decide)),
      if_pos (h₂.mpr rfl), hparse]
    rfl
  | beforeControllerRecv id _ _ _ =>
    obtain ⟨rfl, rfl⟩ := List.cons.inj hfields
    have hparse : parseControllerHearIdOnly first = .ok id :=
      parseIdOnly_first h₄ (Or.inr rfl) htokens
    rw [statusLine, if_neg (hskip h₁ (by dsimp only [Notification.mark]; decide)),
      if_neg (hskip h₂ (by dsimp only [Notification.mark]; decide)), if_pos (h₃.mpr rfl), hparse]
    rfl
  | afterControllerRecv id =>
    obtain ⟨rfl, rfl⟩ := List.cons.inj hfields
    have hparse : parseControllerHearIdOnly first = .ok id :=
      parseIdOnly_first h₄ (Or.inl rfl) htokens
    rw [statusLine, if_neg (hskip h₁ (by dsimp only [Notification.mark]; decide)),
      if_neg (hskip h₂ (by dsimp only [Notification.mark]; decide)),
      if_neg (hskip h₃ (by dsimp only [Notification.mark]; decide)), if_pos (h₄.mpr rfl), hparse]
    rfl
  | beforeControllerReconcile f =>
    obtain ⟨rfl, rfl⟩ := List.cons.inj hfields
    obtain ⟨event, hparse, hname⟩ :=
      parseReconcile_first h₅ (Or.inl rfl) htokens (htail (List.cons_ne_nil _ _))
    rw [statusLine, if_neg (hskip h₁ (by dsimp only [Notification.mark]; decide)),
      if_neg (hskip h₂ (by dsimp only [Notification.mark]; decide)),
      if_neg (hskip h₃ (by dsimp only [Notification.mark]; decide)),
      if_neg (hskip h₄ (by dsimp only [Notification.mark]; decide)), if_pos (h₅.mpr rfl), hparse]
    show Except.ok (StatusLine.beforeReconcile (String.ofList event.reconcileFun)) = _
    rw [hname]
    rfl
  | afterControllerReconcile f =>
    obtain ⟨rfl, rfl⟩ := List.cons.inj hfields
    obtain ⟨event, hparse, hname⟩ :=
      parseReconcile_first h₅ (Or.inr rfl) htokens (htail (List.cons_ne_nil _ _))
    rw [statusLine, if_neg (hskip h₁ (by dsimp only [Notification.mark]; decide)),
      if_neg (hskip h₂ (by dsimp only [Notification.mark]; decide)),
      if_neg (hskip h₃ (by dsimp only [Notification.mark]; decide)),
      if_neg (hskip h₄ (by dsimp only [Notification.mark]; decide)),
      if_neg (hskip h₅ (by dsimp only [Notification.mark]; decide)), if_pos (h₆.mpr rfl), hparse]
    show Except.ok (StatusLine.afterReconcile (String.ofList event.reconcileFun)) = _
    rw [hname]
    rfl
  | _ =>
    refine statusLine_other ?_
    simp only [checkedMarks, List.forall_mem_cons]
    refine ⟨hskip h₁ ?_, hskip h₂ ?_, hskip h₃ ?_, hskip h₄ ?_, hskip h₅ ?_, hskip h₆ ?_, by simp⟩ <;>
      (dsimp only [Notification.mark]; decide)

/-- Lines without marks say nothing. -/
theorem statuses_others {lines : List Text}
    (h : ∀ line ∈ lines, ∀ mark ∈ checkedMarks, ¬ mark <:+: line) :
    ∃ statuses, lines.mapM statusLine = .ok statuses ∧ telling statuses = [] := by
  induction lines with
  | nil => exact ⟨[], rfl, rfl⟩
  | cons line lines ih =>
    obtain ⟨hline, hlines⟩ := List.forall_mem_cons.mp h
    obtain ⟨statuses, hmap, htelling⟩ := ih hlines
    refine ⟨.other :: statuses, ?_, htelling⟩
    rw [List.mapM_cons, statusLine_other hline, hmap]
    rfl

/-- The first field of a record. -/
theorem exists_head {notification : Notification} (h : Unmarked notification) (count : ℤ) :
    ∃ head tail, notification.fields count = head :: tail ∧
      '\t' ∉ head ∧ '\n' ∉ head ∧ '\r' ∉ head := by
  have hid : ∀ n, '\t' ∉ formatInt n ∧ '\n' ∉ formatInt n ∧ '\r' ∉ formatInt n := fun n =>
    ⟨(plain_formatInt n).1, (plain_formatInt n).2, not_mem_formatInt (by decide) (by decide) n⟩
  cases notification with
  | beforeControllerReconcile f => exact ⟨f, _, rfl, h.names f rfl⟩
  | afterControllerReconcile f => exact ⟨f, _, rfl, h.names f rfl⟩
  | afterCacheGet | afterCacheList => exact ⟨_, _, rfl, by decide⟩
  | _ => exact ⟨_, _, rfl, hid _⟩

/-- **The check sees the status of a record, and nothing else.** -/
theorem statuses_logLine {notification : Notification} (h : Unmarked notification) (stamp : Stamp)
    (count : ℤ) :
    ∃ statuses, (readlines (logLine stamp count notification)).mapM statusLine = .ok statuses ∧
      telling statuses = telling [statusOf notification] := by
  obtain ⟨head, tail, hfields, htab, hn, hr⟩ := exists_head h count
  obtain ⟨first, lines, hlines, hmarks, ⟨tokens, htokens, htail⟩, hothers⟩ :=
    @readlines_logLine stamp count notification h head tail hfields htab hn hr
  obtain ⟨statuses, hmap, htelling⟩ := statuses_others hothers
  have hfirst := statusLine_first
    (fun mark hmark => (hmarks mark hmark).trans (infix_mark_iff hmark notification)) hfields htokens
    htail
  refine ⟨statusOf notification :: statuses, ?_, ?_⟩
  · rw [hlines, List.mapM_cons, hfirst, hmap]
    rfl
  · rw [telling, List.filter_cons, telling, List.filter_cons, ← telling, htelling]
    rfl

end Status

/-! ### The whole log -/

theorem telling_append (lines lines' : List StatusLine) :
    telling (lines ++ lines') = telling lines ++ telling lines' :=
  List.filter_append _ _

/-- The text of the lines of the log, oldest first. -/
def logFile (lines : List LoggedLine) : Text := (lines.map LoggedLine.text).flatten

/-- The check sees the statuses of the records in their order. -/
theorem statuses_logFile {lines : List LoggedLine} (h : ∀ line ∈ lines, Unmarked line.notification) :
    ∃ statuses, (readlines (logFile lines)).mapM statusLine = .ok statuses ∧
      telling statuses = telling (lines.map fun line => statusOf line.notification) := by
  induction lines with
  | nil => exact ⟨[], rfl, rfl⟩
  | cons line lines ih =>
    obtain ⟨hline, hlines⟩ := List.forall_mem_cons.mp h
    obtain ⟨statuses, hmap, htelling⟩ := ih hlines
    obtain ⟨statuses', hmap', htelling'⟩ := statuses_logLine hline line.stamp line.count
    have hsplit : readlines (logFile (line :: lines)) =
        readlines (logLine line.stamp line.count line.notification) ++ readlines (logFile lines) := by
      rw [logFile, List.map_cons, List.flatten_cons, ← logFile, LoggedLine.text, logLine,
        List.append_assoc, List.singleton_append, readlines_append]
    refine ⟨statuses' ++ statuses, ?_, ?_⟩
    · rw [hsplit, List.mapM_append, hmap', hmap]
      rfl
    · rw [telling_append, htelling, htelling', List.map_cons, ← telling_append]
      rfl

theorem sanityCheckPasses_of_allFit {lines : List LoggedLine}
    (hunmarked : ∀ line ∈ lines, Unmarked line.notification)
    (hfit : AllFit (lines.reverse.map LoggedLine.notification)) :
    SanityCheckPasses (readlines (logFile lines)) := by
  obtain ⟨statuses, hmap, htelling⟩ := statuses_logFile hunmarked
  refine ⟨statuses, hmap, ?_⟩
  have hsane := sane_of_allFit hfit
  rw [← sane_telling] at hsane
  rw [sanityCheck_iff, ← sane_telling, telling, List.filter_reverse, ← telling, htelling, telling,
    ← List.filter_reverse, ← List.map_reverse]
  rw [List.map_map] at hsane
  exact hsane

/-! ### Runs of the learn server -/

/-- What is asked of the learn server and its log. -/
structure LearnsWell (s : LearnState) : Prop where
  alive : s.fatal = false
  ids_unique : ∀ counter, (s.given counter).Nodup
  /-- A call that is to wait has a channel, over which it has been released once or is still to be
  released. -/
  released_once : s.releasedChannels.Nodup ∧ ∀ channel < s.channels,
    (channel ∈ s.releasedChannels ↔ ∀ client, (s.activity client).channel ≠ some channel)
  /-- Only what is logged has been released. -/
  released_logged : ∀ notification, s.releasedCalls.count notification ≤ s.logged.count notification
  /-- Handlers and coordinator come to an end, and then no call waits. -/
  comes_to_end : Acc (fun later now => ServerStep now later) s
  idle_at_end : (∀ s', ¬ ServerStep s s') → ∀ client, s.activity client = .idle
  numbers : NumbersOk s.log
  sane : SanityCheckPasses (readlines (logFile s.log.reverse))

/-- What is asked holds in each state of the invariant. -/
theorem learnsWell_of_inv {s : LearnState} (h : LearnInv s) (hunmarked : AllReported Unmarked s) :
    LearnsWell s where
  alive := h.alive
  ids_unique := h.counters.nodup
  released_once := by
    refine ⟨h.channels.released_nodup, fun channel hlt => ⟨fun hmem client hheld => ?_, fun hfree => ?_⟩⟩
    · exact h.channels.held_new client channel hheld hmem
    · obtain hmem | ⟨client, hheld⟩ := h.channels.accounted channel hlt
      · exact hmem
      · exact absurd hheld (hfree client)
  released_logged := h.queue.logged
  comes_to_end := acc_serverStep h.busy
  idle_at_end := idle_of_stuck h
  numbers := h.rounds.numbers
  sane := by
    refine sanityCheckPasses_of_allFit (fun line hline => ?_) ?_
    · refine hunmarked.sent _ (List.mem_append_right _ (List.mem_map_of_mem ?_))
      exact List.mem_reverse.mp hline
    · rw [List.reverse_reverse]
      exact h.sent.of_append

/-- **The learn server and its log do what is asked of them** in every run in which no reported text
bears a mark that the check looks for and no counter wraps. -/
theorem learnsWell_of_unmarked (s : LearnState)
    (hrun : Relation.ReflTransGen
      (Guarded LearnStep fun s label => s.Counts label ∧ label.Reports Unmarked) .start s) :
    LearnsWell s := by
  have hinv : Always (Guarded LearnStep fun s label => s.Counts label ∧ label.Reports Unmarked) .start
      fun s => LearnInv s ∧ AllReported Unmarked s :=
    .of_guarded
      ⟨learnInv_start, fun client => trivial, fun notification hmem => absurd hmem List.not_mem_nil⟩
      fun s label s' hs hguard hstep => ⟨hs.1.step hguard.1 hstep, hs.2.step hguard.2 hstep⟩
  exact learnsWell_of_inv (hinv s hrun).1 (hinv s hrun).2

def noStamp : Stamp := ⟨[], by simp⟩

def podCreated : RestReport where
  controllerOperationType := "Create".toList
  reconcileFun := "reconcile".toList
  error := "NoError".toList
  resourceType := "pod".toList
  objNamespace := "default".toList
  name := "a".toList
  objectBody := "\x7b\x7d".toList

/-- A write is begun, logged, released, ended and logged again. -/
theorem learnsWell_of_unmarked_write : ∃ s, LearnsWell s ∧
    s.log = [⟨noStamp, 0, .afterRestWrite 0 podCreated⟩, ⟨noStamp, 0, .beforeRestWrite 0⟩] := by
  have hbefore : ∀ id, Unmarked (.beforeRestWrite id) := by
    intro id
    refine ⟨fun text htext => absurd htext List.not_mem_nil, fun f hf => ?_⟩
    cases hf
  have hafter : Unmarked (.afterRestWrite 0 podCreated) := by
    refine ⟨by decide +kernel, fun f hf => ?_⟩
    cases hf
  refine ⟨_, learnsWell_of_unmarked _ (.tail (.tail (.tail (.tail (.tail (.tail (.tail (.tail (.tail .refl
    ⟨.begins 0 .restWrite, ⟨trivial, hbefore⟩, .begins .restWrite rfl⟩)
    ⟨.serves 0, ⟨fun request _ => Nat.two_pow_pos 32, trivial⟩, .counts rfl rfl⟩)
    ⟨.serves 0, ⟨fun request h => (by cases h), trivial⟩, .stores rfl rfl⟩)
    ⟨.serves 0, ⟨fun request h => (by cases h), trivial⟩, .sends rfl rfl (by decide)⟩)
    ⟨.coordinates noStamp, ⟨trivial, trivial⟩, .coordinates rfl rfl rfl⟩)
    ⟨.serves 0, ⟨fun request h => (by cases h), trivial⟩, .receives rfl rfl rfl⟩)
    ⟨.ends 0 (.afterRestWrite 0 podCreated), ⟨trivial, hafter⟩, .ends rfl rfl rfl⟩)
    ⟨.serves 0, ⟨fun request h => (by cases h), trivial⟩, .sendsAfter rfl rfl (by decide)⟩)
    ⟨.coordinates noStamp, ⟨trivial, trivial⟩, .coordinates rfl rfl rfl⟩), rfl⟩

/-- A write of a config map that keeps a line of another log. -/
def logCopied : RestReport where
  controllerOperationType := "Update".toList
  reconcileFun := "reconcile".toList
  error := "NoError".toList
  resourceType := "configmap".toList
  objNamespace := "default".toList
  name := "log".toList
  objectBody := "\x7b\"data\":\x7b\"line\":\"[SIEVE-BEFORE-REST-WRITE]\"\x7d\x7d".toList

/-- Such a write is reported like any other. -/
theorem logCopied_run : ∃ s, Relation.ReflTransGen (Unlabelled LearnStep) .start s ∧
    s.log = [⟨noStamp, 0, .afterRestWrite 0 logCopied⟩, ⟨noStamp, 0, .beforeRestWrite 0⟩] := by
  refine ⟨_, .tail (.tail (.tail (.tail (.tail (.tail (.tail (.tail (.tail .refl
    ⟨.begins 0 .restWrite, .begins .restWrite rfl⟩)
    ⟨.serves 0, .counts rfl rfl⟩) ⟨.serves 0, .stores rfl rfl⟩)
    ⟨.serves 0, .sends rfl rfl (by decide)⟩) ⟨.coordinates noStamp, .coordinates rfl rfl rfl⟩)
    ⟨.serves 0, .receives rfl rfl rfl⟩) ⟨.ends 0 (.afterRestWrite 0 logCopied), .ends rfl rfl rfl⟩)
    ⟨.serves 0, .sendsAfter rfl rfl (by decide)⟩) ⟨.coordinates noStamp, .coordinates rfl rfl rfl⟩, rfl⟩

/-- The check takes the report for the beginning of another write with the same id. -/
theorem logCopied_statuses :
    (readlines (logFile [⟨noStamp, 0, .beforeRestWrite 0⟩,
      ⟨noStamp, 0, .afterRestWrite 0 logCopied⟩])).mapM statusLine =
        .ok [.beforeRestWrite 0, .beforeRestWrite 0] := by
  have hlines : readlines (logFile [⟨noStamp, 0, .beforeRestWrite 0⟩,
      ⟨noStamp, 0, .afterRestWrite 0 logCopied⟩]) =
        [logLine noStamp 0 (.beforeRestWrite 0), logLine noStamp 0 (.afterRestWrite 0 logCopied)] := by
    rw [logFile, List.map_cons, List.map_singleton, List.flatten_cons, List.flatten_singleton,
      LoggedLine.text, LoggedLine.text, logLine, logLine, List.append_assoc, List.singleton_append,
      readlines_append, readlines_line (by decide +kernel) (by decide +kernel),
      readlines_line (by decide +kernel) (by decide +kernel)]
    rfl
  have hfirst : statusLine (logLine noStamp 0 (.beforeRestWrite 0)) = .ok (.beforeRestWrite 0) := by
    decide +kernel
  have hsecond : statusLine (logLine noStamp 0 (.afterRestWrite 0 logCopied)) =
      .ok (.beforeRestWrite 0) := by
    decide +kernel
  rw [hlines, List.mapM_cons, List.mapM_cons, hfirst, hsecond]
  rfl

/-- **Without the condition on the texts the log may fail the check.** -/
theorem not_learnsWell : ¬ Always (Unlabelled LearnStep) .start LearnsWell := by
  intro h
  obtain ⟨s, hrun, hlog⟩ := logCopied_run
  obtain ⟨statuses, hmap, hcheck⟩ := (h s hrun).sane
  rw [hlog] at hmap
  rw [← Except.ok.inj (logCopied_statuses.symm.trans hmap)] at hcheck
  revert hcheck
  decide

end Sieve.Analyzer
