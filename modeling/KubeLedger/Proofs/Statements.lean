import KubeLedger.Store.Server

/- Reading the texts of statements. What reaches a database is a text with question marks, put
   together from names, so what it means is said by how it is read. A text is split into words and
   marks (`tokens`), and a statement is read from these by its form (`statement?`).

   Every statement that changes rows is read back from its text (`read?_text`), as long as names are
   words: something that holds no blank and none of the marks. So no two statements share a text, and
   a name never changes what is done. -/
namespace KubeLedger.Sql

/-- What a text is made of. -/
inductive Token where
  | word (name : String)
  | mark (c : Char)
deriving DecidableEq, Repr

/-- The characters that words stand between. -/
def isMark (c : Char) : Bool :=
  c == ' ' || c == ',' || c == '(' || c == ')' || c == '=' || c == '?'

def IsWord (name : String) : Prop := name ≠ "" ∧ ∀ c ∈ name.toList, isMark c = false

instance (name : String) : Decidable (IsWord name) :=
  @instDecidableAnd _ _ _ (List.decidableBAll _ name.toList)

/-! ## Words and marks -/

/-- The word that was read, backwards, if there is one. -/
def wordOf (letters : List Char) : List Token :=
  if letters.isEmpty then [] else [.word (String.ofList letters.reverse)]

/-- The mark that was read. Blanks only separate. -/
def markOf (c : Char) : List Token := if c = ' ' then [] else [.mark c]

/-- The tokens of some characters, with the letters read so far of the word at hand. -/
def tokensFrom (letters : List Char) : List Char → List Token
  | [] => wordOf letters
  | c :: rest =>
    if isMark c then wordOf letters ++ markOf c ++ tokensFrom [] rest
    else tokensFrom (c :: letters) rest

def tokens (text : String) : List Token := tokensFrom [] text.toList

/-! ## Statements -/

def after? : List Token → List Token → Option (List Token)
  | [], ts => some ts
  | _ :: _, [] => none
  | expected :: more, t :: ts => if expected = t then after? more ts else none

def word? : List Token → Option (String × List Token)
  | .word w :: ts => some (w, ts)
  | _ => none

/-- Names up to a closing bracket, and what follows it. -/
def names? : List Token → Option (List String × List Token)
  | .word c :: .mark ')' :: ts => some ([c], ts)
  | .word c :: .mark ',' :: ts => (names? ts).map fun (cs, ts) => (c :: cs, ts)
  | _ => none

/-- How many rows of so many place holders there are, and what follows them. Of the row at hand, `seen`
place holders were read, and `count` rows before it. -/
def rows? (width seen count : Nat) : List Token → Option (Nat × List Token)
  | .mark '?' :: .mark ',' :: ts => rows? width (seen + 1) count ts
  | .mark '?' :: .mark ')' :: .mark ',' :: .mark '(' :: ts =>
    if seen + 1 = width then rows? width 0 (count + 1) ts else none
  | .mark '?' :: .mark ')' :: ts => if seen + 1 = width then some (count + 1, ts) else none
  | _ => none

def assignments? : List Token → Option (List Assignment)
  | .word c :: .mark '=' :: .word v :: .mark '(' :: .word d :: .mark ')' :: ts =>
    if v = "VALUES" ∧ c = d then
      match ts with
      | [] => some [.fromNew c]
      | .mark ',' :: ts => (assignments? ts).map (.fromNew c :: ·)
      | _ => none
    else none
  | .word c :: .mark '=' :: .word d :: ts =>
    if c = d then
      match ts with
      | [] => some [.unchanged c]
      | .mark ',' :: ts => (assignments? ts).map (.unchanged c :: ·)
      | _ => none
    else none
  | _ => none

def insert? (ts : List Token) : Option Sql := do
  let ts ← after? [.word "INSERT", .word "INTO"] ts
  let (table, ts) ← word? ts
  let ts ← after? [.mark '('] ts
  let (columns, ts) ← names? ts
  let ts ← after? [.word "VALUES", .mark '('] ts
  let (count, ts) ← rows? columns.length 0 0 ts
  let ts ← after? [.word "ON", .word "DUPLICATE", .word "KEY", .word "UPDATE"] ts
  return .insert table columns count (← assignments? ts)

def deleteWhere? (ts : List Token) : Option Sql := do
  let ts ← after? [.word "DELETE", .word "FROM"] ts
  let (table, ts) ← word? ts
  let (column, ts) ← word? (← after? [.word "WHERE"] ts)
  if ts = [.mark '=', .mark '?'] then some (.deleteWhere table column) else none

def deleteVia? (ts : List Token) : Option Sql := do
  let ts ← after? [.word "DELETE", .word "FROM"] ts
  let (table, ts) ← word? ts
  let (column, ts) ← word? (← after? [.word "WHERE"] ts)
  let (key, ts) ← word? (← after? [.word "IN", .mark '(', .word "SELECT"] ts)
  let (via, ts) ← word? (← after? [.word "FROM"] ts)
  let (viaColumn, ts) ← word? (← after? [.word "WHERE"] ts)
  if ts = [.mark '=', .mark '?', .mark ')'] then some (.deleteVia table column key via viaColumn)
  else none

def statement? (ts : List Token) : Option Sql :=
  (insert? ts).or ((deleteWhere? ts).or (deleteVia? ts))

/-- Reads a statement that changes rows. -/
def read? (text : String) : Option Sql := statement? (tokens text)

/-! ## The tokens of a text -/

/-- A mark splits a text. -/
theorem tokensFrom_mark {c : Char} (hc : isMark c = true) (letters a b : List Char) :
    tokensFrom letters (a ++ c :: b) = tokensFrom letters a ++ markOf c ++ tokensFrom [] b := by
  induction a generalizing letters with
  | nil => simp [tokensFrom, hc]
  | cons x a ih =>
    rw [List.cons_append, tokensFrom, tokensFrom]
    split
    · rw [ih, List.append_assoc, List.append_assoc, List.append_assoc, List.append_assoc,
        List.append_assoc]
    · exact ih _

theorem tokensFrom_letters {w : List Char} (hw : ∀ c ∈ w, isMark c = false)
    (letters : List Char) : tokensFrom letters w = wordOf (w.reverse ++ letters) := by
  induction w generalizing letters with
  | nil => rfl
  | cons c w ih =>
    obtain ⟨hc, hw⟩ := List.forall_mem_cons.mp hw
    rw [tokensFrom, hc, if_neg Bool.false_ne_true, ih hw, List.reverse_cons, List.append_assoc,
      List.singleton_append]

theorem tokensFrom_word {w : String} (hw : IsWord w) : tokensFrom [] w.toList = [.word w] := by
  rw [tokensFrom_letters hw.2, List.append_nil, wordOf, List.reverse_reverse, String.ofList_toList,
    if_neg]
  simpa using hw.1

def listed (parts : List (List Token)) : List Token := [Token.mark ','].intercalate parts

theorem listed_cons {p q : List Token} (rest : List (List Token)) :
    listed (p :: q :: rest) = p ++ .mark ',' :: listed (q :: rest) := by
  rw [listed, List.intercalate_cons_cons, List.append_assoc]
  rfl

theorem tokensFrom_commas (parts : List String) :
    tokensFrom [] (commas parts).toList = listed (parts.map fun p => tokensFrom [] p.toList) := by
  have hblank : ∀ cs, tokensFrom [] (' ' :: cs) = tokensFrom [] cs := fun _ => rfl
  have hcomma : markOf ',' = [.mark ','] := rfl
  have hchars : ", ".toList = [',', ' '] := rfl
  rw [commas, String.toList_intercalate, hchars]
  induction parts with
  | nil => rfl
  | cons p rest ih =>
    cases rest with
    | nil => simp [listed]
    | cons q rest =>
      rw [List.map_cons] at ih
      rw [List.map_cons, List.map_cons, List.intercalate_cons_cons, List.append_assoc,
        List.cons_append, List.singleton_append, tokensFrom_mark rfl, hblank, ih, List.map_cons,
        List.map_cons, List.map_cons, listed_cons, hcomma, List.append_assoc,
        List.singleton_append]

/-- The place holders of one row. -/
def group (width : Nat) : List Token :=
  .mark '(' :: (listed (List.replicate width [.mark '?']) ++ [.mark ')'])

theorem tokensFrom_placeholders (columns : List String) :
    tokensFrom [] (placeholders columns).toList = group columns.length := by
  have hopen : ∀ cs, tokensFrom [] ('(' :: cs) = .mark '(' :: tokensFrom [] cs := fun _ => rfl
  have hclose : markOf ')' = [.mark ')'] := rfl
  have hmarks : ((columns.map fun _ => "?").map fun p => tokensFrom [] p.toList) =
      List.replicate columns.length [.mark '?'] := by
    rw [List.map_const', List.map_replicate]
    rfl
  have htext : (placeholders columns).toList =
      '(' :: ((commas (columns.map fun _ => "?")).toList ++ [')']) := by
    rw [placeholders, String.toList_append, String.toList_append]
    rfl
  rw [htext, hopen, tokensFrom_mark rfl, tokensFrom_commas, hmarks, hclose]
  simp [group, tokensFrom, wordOf]

def assignmentTokens : Assignment → List Token
  | .fromNew c => [.word c, .mark '=', .word "VALUES", .mark '(', .word c, .mark ')']
  | .unchanged c => [.word c, .mark '=', .word c]

def target : Assignment → String
  | .fromNew c => c
  | .unchanged c => c

theorem tokensFrom_assignment {a : Assignment} (ha : IsWord (target a)) :
    tokensFrom [] (assignmentText a).toList = assignmentTokens a := by
  have hmark : markOf '=' = [.mark '='] := rfl
  cases a with
  | fromNew c =>
    have hc : tokensFrom [] c.toList = [.word c] := tokensFrom_word ha
    have hvalues : ∀ cs, tokensFrom [] ("VALUES(".toList ++ cs) =
        .word "VALUES" :: .mark '(' :: tokensFrom [] cs := fun _ => rfl
    have htext : (assignmentText (.fromNew c)).toList =
        c.toList ++ '=' :: ("VALUES(".toList ++ (c.toList ++ [')'])) := by
      have hset : "=VALUES(".toList = '=' :: "VALUES(".toList := rfl
      have hclose : ")".toList = [')'] := rfl
      rw [assignmentText, String.toList_append, String.toList_append, String.toList_append, hset,
        hclose, List.append_assoc, List.append_assoc, List.cons_append]
    rw [htext, tokensFrom_mark rfl, hvalues, tokensFrom_mark rfl, hc, hmark]
    rfl
  | unchanged c =>
    have hc : tokensFrom [] c.toList = [.word c] := tokensFrom_word ha
    have htext : (assignmentText (.unchanged c)).toList = c.toList ++ '=' :: c.toList := by
      rw [assignmentText, String.toList_append, String.toList_append, List.append_assoc]
      rfl
    rw [htext, tokensFrom_mark rfl, hc, hmark]
    rfl

theorem tokens_insert {table : String} {columns : List String} (ht : IsWord table)
    (hcolumns : ∀ c ∈ columns, IsWord c) (count : Nat) {onDuplicate : List Assignment}
    (hassigned : ∀ a ∈ onDuplicate, IsWord (target a)) :
    tokens (text (.insert table columns count onDuplicate)) =
      .word "INSERT" :: .word "INTO" :: .word table :: .mark '(' ::
        (listed (columns.map fun c => [.word c]) ++ .mark ')' :: .word "VALUES" ::
          (listed (List.replicate count (group columns.length)) ++
            .word "ON" :: .word "DUPLICATE" :: .word "KEY" :: .word "UPDATE" ::
              listed (onDuplicate.map assignmentTokens))) := by
  have htext : text (.insert table columns count onDuplicate) =
      "INSERT INTO " ++ table ++ " (" ++ commas columns ++ ") VALUES " ++
        commas (List.replicate count (placeholders columns)) ++ " ON DUPLICATE KEY UPDATE " ++
        commas (onDuplicate.map assignmentText) := by
    unfold text
    rfl
  have hfirst : ∀ cs, tokensFrom [] ("INSERT INTO ".toList ++ cs) =
      .word "INSERT" :: .word "INTO" :: tokensFrom [] cs := fun _ => rfl
  have hopen : ∀ cs, " (".toList ++ cs = ' ' :: '(' :: cs := fun _ => rfl
  have hopened : ∀ cs, tokensFrom [] ('(' :: cs) = .mark '(' :: tokensFrom [] cs := fun _ => rfl
  have hvalues : ∀ cs, ") VALUES ".toList ++ cs = ')' :: (" VALUES ".toList ++ cs) := fun _ => rfl
  have hvalued : ∀ cs, tokensFrom [] (" VALUES ".toList ++ cs) =
      .word "VALUES" :: tokensFrom [] cs := fun _ => rfl
  have hclause : ∀ cs, " ON DUPLICATE KEY UPDATE ".toList ++ cs =
      ' ' :: ("ON DUPLICATE KEY UPDATE ".toList ++ cs) := fun _ => rfl
  have hupdated : ∀ cs, tokensFrom [] ("ON DUPLICATE KEY UPDATE ".toList ++ cs) =
      .word "ON" :: .word "DUPLICATE" :: .word "KEY" :: .word "UPDATE" :: tokensFrom [] cs :=
    fun _ => rfl
  have hnames : (columns.map fun c => tokensFrom [] c.toList) = columns.map fun c => [.word c] :=
    List.map_congr_left fun c hc => tokensFrom_word (hcolumns c hc)
  have hassignments : ((onDuplicate.map assignmentText).map fun a => tokensFrom [] a.toList) =
      onDuplicate.map assignmentTokens := by
    rw [List.map_map]
    exact List.map_congr_left fun a ha => tokensFrom_assignment (hassigned a ha)
  rw [tokens, htext]
  simp only [String.toList_append, List.append_assoc]
  rw [hfirst, hopen, tokensFrom_mark rfl, hopened, hvalues, tokensFrom_mark rfl, hvalued, hclause,
    tokensFrom_mark rfl, hupdated, tokensFrom_word ht, tokensFrom_commas, tokensFrom_commas,
    tokensFrom_commas, hnames, hassignments, List.map_replicate, tokensFrom_placeholders]
  have hblank : markOf ' ' = [] := rfl
  have hclose : markOf ')' = [.mark ')'] := rfl
  simp [hblank, hclose]

theorem tokens_deleteWhere {table column : String} (ht : IsWord table) (hc : IsWord column) :
    tokens (text (.deleteWhere table column)) =
      [.word "DELETE", .word "FROM", .word table, .word "WHERE", .word column, .mark '=',
        .mark '?'] := by
  have htext : text (.deleteWhere table column) =
      "DELETE FROM " ++ table ++ " WHERE " ++ column ++ " = ?" := by
    unfold text
    rfl
  have hfirst : ∀ cs, tokensFrom [] ("DELETE FROM ".toList ++ cs) =
      .word "DELETE" :: .word "FROM" :: tokensFrom [] cs := fun _ => rfl
  have hwhere : ∀ cs, " WHERE ".toList ++ cs = ' ' :: ("WHERE ".toList ++ cs) := fun _ => rfl
  have hcolumn : ∀ cs, tokensFrom [] ("WHERE ".toList ++ cs) =
      .word "WHERE" :: tokensFrom [] cs := fun _ => rfl
  have hlast : " = ?".toList = [' ', '=', ' ', '?'] := rfl
  rw [tokens, htext]
  simp only [String.toList_append, List.append_assoc]
  rw [hfirst, hwhere, tokensFrom_mark rfl, hcolumn, hlast, tokensFrom_mark rfl,
    tokensFrom_word ht, tokensFrom_word hc]
  rfl

theorem tokens_deleteVia {table column key via viaColumn : String} (ht : IsWord table)
    (hc : IsWord column) (hk : IsWord key) (hv : IsWord via) (hvc : IsWord viaColumn) :
    tokens (text (.deleteVia table column key via viaColumn)) =
      [.word "DELETE", .word "FROM", .word table, .word "WHERE", .word column, .word "IN",
        .mark '(', .word "SELECT", .word key, .word "FROM", .word via, .word "WHERE",
        .word viaColumn, .mark '=', .mark '?', .mark ')'] := by
  have htext : text (.deleteVia table column key via viaColumn) =
      "DELETE FROM " ++ table ++ " WHERE " ++ column ++ " IN (SELECT " ++ key ++ " FROM " ++ via ++
        " WHERE " ++ viaColumn ++ " = ?)" := by
    unfold text
    rfl
  have hfirst : ∀ cs, tokensFrom [] ("DELETE FROM ".toList ++ cs) =
      .word "DELETE" :: .word "FROM" :: tokensFrom [] cs := fun _ => rfl
  have hwhere : ∀ cs, " WHERE ".toList ++ cs = ' ' :: ("WHERE ".toList ++ cs) := fun _ => rfl
  have hcolumn : ∀ cs, tokensFrom [] ("WHERE ".toList ++ cs) =
      .word "WHERE" :: tokensFrom [] cs := fun _ => rfl
  have hin : ∀ cs, " IN (SELECT ".toList ++ cs = ' ' :: ("IN (SELECT ".toList ++ cs) :=
    fun _ => rfl
  have hselect : ∀ cs, tokensFrom [] ("IN (SELECT ".toList ++ cs) =
      .word "IN" :: .mark '(' :: .word "SELECT" :: tokensFrom [] cs := fun _ => rfl
  have hfrom : ∀ cs, " FROM ".toList ++ cs = ' ' :: ("FROM ".toList ++ cs) := fun _ => rfl
  have hvia : ∀ cs, tokensFrom [] ("FROM ".toList ++ cs) = .word "FROM" :: tokensFrom [] cs :=
    fun _ => rfl
  have hlast : " = ?)".toList = [' ', '=', ' ', '?', ')'] := rfl
  rw [tokens, htext]
  simp only [String.toList_append, List.append_assoc]
  rw [hfirst, hwhere, tokensFrom_mark rfl, hcolumn, hin, tokensFrom_mark rfl, hselect, hfrom,
    tokensFrom_mark rfl, hvia, hwhere, tokensFrom_mark rfl, hcolumn, hlast, tokensFrom_mark rfl,
    tokensFrom_word ht, tokensFrom_word hc, tokensFrom_word hk, tokensFrom_word hv,
    tokensFrom_word hvc]
  rfl

/-! ## Statements read back -/

theorem names?_listed {names : List String} (hsome : names ≠ []) (ts : List Token) :
    names? (listed (names.map fun c => [.word c]) ++ .mark ')' :: ts) = some (names, ts) := by
  induction names with
  | nil => exact absurd rfl hsome
  | cons c rest ih =>
    cases rest with
    | nil => simp [listed, names?]
    | cons d rest =>
      have hrest := ih (by simp)
      simp only [List.map_cons] at hrest ⊢
      rw [listed_cons, List.append_assoc, List.cons_append, List.cons_append, List.nil_append,
        names?, hrest]
      rfl

/-- A row of place holders is read up to its closing bracket. -/
theorem rows?_marks {width seen count k : Nat} (hk : 0 < k) (ts : List Token) :
    rows? width seen count (listed (List.replicate k [.mark '?']) ++ .mark ')' :: ts) =
      rows? width (seen + k - 1) count (.mark '?' :: .mark ')' :: ts) := by
  induction k generalizing seen with
  | zero => cases hk
  | succ k ih =>
    cases k with
    | zero => simp [listed]
    | succ k =>
      rw [List.replicate_succ, List.replicate_succ, listed_cons, ← List.replicate_succ]
      simp only [List.cons_append, List.nil_append, rows?]
      rw [ih (Nat.succ_pos k)]
      congr 1
      omega

theorem rows?_groups {width : Nat} (hw : 0 < width) (n count : Nat) (w : String)
    (ts : List Token) :
    ∃ body, listed (List.replicate (n + 1) (group width)) = .mark '(' :: body ∧
      rows? width 0 count (body ++ .word w :: ts) = some (count + (n + 1), .word w :: ts) := by
  have hrow : ∀ count ts, rows? width 0 count
      (listed (List.replicate width [.mark '?']) ++ .mark ')' :: ts) =
        rows? width (width - 1) count (.mark '?' :: .mark ')' :: ts) := by
    intro count ts
    rw [rows?_marks hw, Nat.zero_add]
  have hwidth : width - 1 + 1 = width := Nat.sub_add_cancel hw
  induction n generalizing count with
  | zero =>
    refine ⟨listed (List.replicate width [.mark '?']) ++ [.mark ')'], by simp [listed, group], ?_⟩
    rw [List.append_assoc, List.singleton_append, hrow]
    simp [rows?, hwidth]
  | succ n ih =>
    obtain ⟨body, hbody, hrows⟩ := ih (count + 1)
    refine ⟨listed (List.replicate width [.mark '?']) ++ .mark ')' :: .mark ',' :: .mark '(' :: body,
      ?_, ?_⟩
    · rw [List.replicate_succ, List.replicate_succ, listed_cons, ← List.replicate_succ, hbody]
      simp [group]
    · rw [List.append_assoc, List.cons_append, hrow]
      simp only [List.cons_append, rows?, hwidth, if_true, hrows]
      rw [Nat.add_assoc, Nat.add_comm 1]

theorem assignments?_listed {as : List Assignment} (hsome : as ≠ []) :
    assignments? (listed (as.map assignmentTokens)) = some as := by
  induction as with
  | nil => exact absurd rfl hsome
  | cons a rest ih =>
    cases rest with
    | nil => cases a <;> simp [listed, assignmentTokens, assignments?]
    | cons b rest =>
      have hrest := ih (by simp)
      rw [List.map_cons] at hrest
      rw [List.map_cons, List.map_cons, listed_cons]
      generalize listed (assignmentTokens b :: rest.map assignmentTokens) = more at hrest ⊢
      cases a <;> simp [assignmentTokens, assignments?, hrest]

/-- A statement that changes rows, with names that are words. -/
def IsPlain : Sql → Prop
  | .insert table columns rowCount onDuplicate =>
    IsWord table ∧ columns ≠ [] ∧ (∀ c ∈ columns, IsWord c) ∧ 0 < rowCount ∧ onDuplicate ≠ [] ∧
      ∀ a ∈ onDuplicate, IsWord (target a)
  | .deleteWhere table column => IsWord table ∧ IsWord column
  | .deleteVia table column key via viaColumn =>
    IsWord table ∧ IsWord column ∧ IsWord key ∧ IsWord via ∧ IsWord viaColumn
  | .select _ _ => False

/-- What begins as a deletion is not an insertion. -/
theorem insert?_delete (ts : List Token) : insert? (.word "DELETE" :: ts) = none := rfl

/-- Both deletions begin alike, and differ in what follows the column. -/
theorem deleteWhere?_column (table column : String) (ts : List Token) :
    deleteWhere? (.word "DELETE" :: .word "FROM" :: .word table :: .word "WHERE" ::
      .word column :: ts) =
        if ts = [.mark '=', .mark '?'] then some (.deleteWhere table column) else none :=
  rfl

theorem deleteVia?_tokens (table column key via viaColumn : String) :
    deleteVia? [.word "DELETE", .word "FROM", .word table, .word "WHERE", .word column, .word "IN",
      .mark '(', .word "SELECT", .word key, .word "FROM", .word via, .word "WHERE",
      .word viaColumn, .mark '=', .mark '?', .mark ')'] =
        some (.deleteVia table column key via viaColumn) :=
  rfl

theorem read?_text {s : Sql} (h : s.IsPlain) : read? s.text = some s := by
  cases s with
  | insert table columns rowCount onDuplicate =>
    obtain ⟨ht, hsome, hcolumns, hcount, hassigned, htargets⟩ := h
    obtain ⟨n, rfl⟩ := Nat.exists_eq_succ_of_ne_zero (Nat.ne_of_gt hcount)
    obtain ⟨body, hbody, hrows⟩ := rows?_groups (List.length_pos_iff.mpr hsome) n 0 "ON"
      (.word "DUPLICATE" :: .word "KEY" :: .word "UPDATE" ::
        listed (onDuplicate.map assignmentTokens))
    have hinsert : insert? (tokens (text (.insert table columns (n + 1) onDuplicate))) =
        some (.insert table columns (n + 1) onDuplicate) := by
      rw [tokens_insert ht hcolumns (n + 1) htargets, hbody]
      simp [insert?, after?, word?, names?_listed hsome, hrows, assignments?_listed hassigned]
    rw [read?, statement?, hinsert, Option.some_or]
  | deleteWhere table column =>
    rw [read?, tokens_deleteWhere h.1 h.2, statement?, insert?_delete, deleteWhere?_column,
      if_pos rfl]
    rfl
  | deleteVia table column key via viaColumn =>
    obtain ⟨ht, hc, hk, hv, hvc⟩ := h
    rw [read?, tokens_deleteVia ht hc hk hv hvc, statement?, insert?_delete, deleteWhere?_column,
      if_neg (by simp), deleteVia?_tokens]
    rfl
  | select => exact h.elim

end KubeLedger.Sql
