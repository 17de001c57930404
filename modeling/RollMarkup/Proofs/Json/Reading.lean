import Mathlib
import RollMarkup.Proofs.Json.Lexeme

/-!
# Reading what was written

The text of a JSON value is read as that value with the members of every object sorted
(`read?_of_isPrinted`), whether it was written on one line or on several. Integers have to fit into 64 bits,
lists and objects may not stand in each other too often, and there are no floating-point numbers.
-/

namespace RollMarkup.Json

/-! ### Values that can be read -/

/-- A value whose lists and objects stand in each other at most `room` times. -/
inductive IsReadable : Nat → Json → Prop
  | null {room : Nat} : IsReadable room null
  | bool {room : Nat} (b : Bool) : IsReadable room (bool b)
  | int {room : Nat} {n : Int} (low : -2 ^ 63 ≤ n) (high : n < 2 ^ 64) : IsReadable room (int n)
  | str {room : Nat} (s : String) : IsReadable room (str s)
  | list {room : Nat} {vs : List Json} (h : ∀ v ∈ vs, IsReadable room v) :
    IsReadable (room + 1) (list vs)
  | object {room : Nat} {ms : List (String × Json)} (h : ∀ m ∈ ms, IsReadable room m.2) :
    IsReadable (room + 1) (object ms)

theorem IsReadable.mono {room more : Nat} {v : Json} (h : v.IsReadable room) (hle : room ≤ more) :
    v.IsReadable more := by
  induction h generalizing more with
  | null => exact .null
  | bool b => exact .bool b
  | int low high => exact .int low high
  | str s => exact .str s
  | list _ ih =>
    cases more with
    | zero => cases hle
    | succ more => exact .list fun v hv => ih v hv (Nat.le_of_succ_le_succ hle)
  | object _ ih =>
    cases more with
    | zero => cases hle
    | succ more => exact .object fun m hm => ih m hm (Nat.le_of_succ_le_succ hle)

mutual

/-- The value with the members of every object sorted by key; of several with one key the last
counts. -/
def sorted : Json → Json
  | list vs => list (sortedItems vs)
  | object ms => object (sortedMembers [] ms)
  | v => v

/-- The items of a list, each of them sorted. -/
def sortedItems : List Json → List Json
  | [] => []
  | v :: vs => v.sorted :: sortedItems vs

/-- Sorted members with more of them, each of them sorted, put in. -/
def sortedMembers (members : List (String × Json)) : List (String × Json) → List (String × Json)
  | [] => members
  | (key, v) :: rest => sortedMembers (insertMember key v.sorted members) rest

end

mutual

/-- The lexemes of a value. -/
def lexemes : Json → List Lexeme
  | list vs => .openList :: [.comma].intercalate (itemLexemes vs) ++ [.closeList]
  | object ms => .openObject :: [.comma].intercalate (memberLexemes ms) ++ [.closeObject]
  | v => [.value v]

/-- The lexemes of each item of a list. -/
def itemLexemes : List Json → List (List Lexeme)
  | [] => []
  | v :: vs => v.lexemes :: itemLexemes vs

/-- The lexemes of each member of an object. -/
def memberLexemes : List (String × Json) → List (List Lexeme)
  | [] => []
  | (key, v) :: rest => (.value (.str key) :: .colon :: v.lexemes) :: memberLexemes rest

end

/-! ### From lexemes to values -/

/-- A value that is complete after its lexemes, wherever a value has to come on a stack. -/
def Completes (v : Json) (stack : List Frame) : Prop :=
  ∀ mayClose, v.lexemes.foldlM State.next? (.value mayClose stack) =
    some (State.complete v.sorted stack)

variable {stack : List Frame}

/-- The lexemes of items one after the other complete the list that they are in. -/
theorem foldlM_items {v : Json} {vs : List Json}
    (h : ∀ w ∈ v :: vs, ∀ items, w.Completes (.list items :: stack)) (mayClose : Bool)
    (items : List Json) :
    ([Lexeme.comma].intercalate (itemLexemes (v :: vs)) ++ [Lexeme.closeList]).foldlM State.next?
        (.value mayClose (.list items :: stack)) =
      some (State.complete (list (items.reverse ++ sortedItems (v :: vs))) stack) := by
  induction vs generalizing v mayClose items with
  | nil =>
    have hv := h v List.mem_cons_self items mayClose
    rw [itemLexemes, itemLexemes, List.intercalate_singleton, List.foldlM_append, hv,
      sortedItems, sortedItems, ← List.reverse_cons]
    rfl
  | cons w vs ih =>
    -- behind the comma the next item has to come: the list may no longer end
    obtain ⟨hv, hvs⟩ := List.forall_mem_cons.mp h
    have hrest := ih hvs false (v.sorted :: items)
    rw [List.reverse_cons, List.append_assoc, List.singleton_append] at hrest
    rw [itemLexemes, itemLexemes, List.intercalate_cons_cons, ← itemLexemes, List.append_assoc,
      List.append_assoc, List.foldlM_append, hv items mayClose, sortedItems]
    exact hrest

/-- The lexemes of members one after the other complete the object that they are in. -/
theorem foldlM_members {m : String × Json} {ms : List (String × Json)}
    (h : ∀ n ∈ m :: ms, ∀ members, n.2.Completes (.object members n.1 :: stack)) (mayClose : Bool)
    (members : List (String × Json)) :
    ([Lexeme.comma].intercalate (memberLexemes (m :: ms)) ++ [Lexeme.closeObject]).foldlM State.next?
        (.key mayClose members stack) =
      some (State.complete (object (sortedMembers members (m :: ms))) stack) := by
  induction ms generalizing m mayClose members with
  | nil =>
    have hm := h m List.mem_cons_self members false
    rw [memberLexemes, memberLexemes, List.intercalate_singleton, sortedMembers, sortedMembers]
    show (m.2.lexemes ++ [Lexeme.closeObject]).foldlM State.next? (.value false _) = _
    rw [List.foldlM_append, hm]
    rfl
  | cons n ms ih =>
    obtain ⟨hm, hms⟩ := List.forall_mem_cons.mp h
    have hrest := ih hms false (insertMember m.1 m.2.sorted members)
    rw [memberLexemes, memberLexemes, List.intercalate_cons_cons, ← memberLexemes, sortedMembers]
    show (m.2.lexemes ++ [Lexeme.comma] ++ _ ++ [Lexeme.closeObject]).foldlM State.next?
      (.value false _) = _
    rw [List.append_assoc, List.append_assoc, List.foldlM_append, hm members false]
    exact hrest

/-- What an open list or object takes up on the stack, the values in it do not need. -/
private theorem room_cons {room : Nat} (h : stack.length + (room + 1) ≤ maxDepth) (f : Frame) :
    (f :: stack).length + room ≤ maxDepth := by
  rw [List.length_cons]
  omega

/-- A value that can be read is complete after its lexemes, if there is room for it on the stack. -/
theorem IsReadable.completes {room : Nat} {v : Json} (h : v.IsReadable room)
    (hroom : stack.length + room ≤ maxDepth) : v.Completes stack := by
  -- a list or an object takes one place on the stack and leaves one less for what is in it
  induction h generalizing stack with
  | null | bool | int | str => exact fun _ => rfl
  | @list room vs h ih =>
    intro mayClose
    have hopen : State.next? (.value mayClose stack) .openList =
        some (.value true (.list [] :: stack)) := if_pos (by omega)
    rw [lexemes, List.cons_append, List.foldlM_cons, hopen]
    cases vs with
    | nil => rfl
    | cons v vs =>
      exact foldlM_items (fun w hw items => ih w hw (room_cons hroom _)) true []
  | @object room ms h ih =>
    intro mayClose
    have hopen : State.next? (.value mayClose stack) .openObject =
        some (.key true [] stack) := if_pos (by omega)
    rw [lexemes, List.cons_append, List.foldlM_cons, hopen]
    cases ms with
    | nil => rfl
    | cons m ms =>
      exact foldlM_members (fun n hn members => ih n hn (room_cons hroom _))
        true []

/-! ### From texts to lexemes -/

open Lexeme (Spells EndsWord isGap)

theorem isGap_nil : ∀ c ∈ ([] : List Char), isGap c = true := by
  rintro c ⟨⟩

theorem isGap_space : ∀ c ∈ [' '], isGap c = true :=
  List.forall_mem_singleton.mpr rfl

theorem isGap_newLine (depth : Nat) : ∀ c ∈ (newLine depth).toList, isGap c = true := by
  intro c hc
  rw [newLine, String.toList_ofList] at hc
  rcases List.mem_cons.mp hc with rfl | hc
  · rfl
  · rw [List.eq_of_mem_replicate hc]
    rfl

theorem endsWord_of_gaps {gs cs : List Char} (hgs : ∀ c ∈ gs, isGap c = true) (hcs : EndsWord cs) :
    EndsWord (gs ++ cs) := by
  refine Lexeme.endsWord_append (fun c hc => ?_) hcs
  rw [Bool.eq_false_iff]
  intro hword
  have hgap := hgs c (List.mem_of_mem_head? hc)
  rw [Lexeme.not_isGap hword] at hgap
  cases hgap

section Brackets

variable {o c : Char} {l m : Lexeme} (ho : isGap o = false) (hl : Lexeme.punctuation? o = some l)
  (hc : isGap c = false) (hm : Lexeme.punctuation? c = some m)
  {items : List String} {lss : List (List Lexeme)}
  (h : List.Forall₂ (fun item ls => Spells item.toList ls) items lss)

include ho hl hc hm h

/-- Items between brackets, with gaps between and around them. -/
theorem spells_joined {gs gs' : List Char} (hgs : ∀ c ∈ gs, isGap c = true)
    (hgs' : ∀ c ∈ gs', isGap c = true) :
    Spells (o :: (gs ++ ((',' :: gs).intercalate (items.map String.toList) ++ (gs' ++ [c]))))
      (l :: ([Lexeme.comma].intercalate lss ++ [m])) := by
  have hclosing : EndsWord [c] := by
    rintro d ⟨⟩
    rw [Bool.eq_false_iff]
    intro hword
    rw [Lexeme.punctuation?_eq_none hword] at hm
    cases hm
  exact .punctuation ho hl (.gaps hgs (.intercalate h hgs (.gaps hgs' (.punctuation hc hm .nil))
    (endsWord_of_gaps hgs' hclosing)))

/-- Items between brackets, each on a line of its own. -/
theorem spells_block (depth : Nat) :
    Spells (block depth (String.ofList [o]) (String.ofList [c]) items).toList
      (l :: ([Lexeme.comma].intercalate lss ++ [m])) := by
  rw [block]
  split
  next hnil =>
    have hempty := spells_joined ho hl hc hm h isGap_nil isGap_nil
    subst hnil
    simpa using hempty
  next =>
    have hblock := spells_joined ho hl hc hm h (isGap_newLine (depth + 1)) (isGap_newLine depth)
    have hcomma : ",".toList = [','] := rfl
    simpa only [String.toList_append, String.toList_intercalate, String.toList_ofList, hcomma,
      List.append_assoc, List.cons_append, List.nil_append] using hblock

/-- Items between brackets on one line. -/
theorem spells_line :
    Spells (String.ofList [o] ++ ",".intercalate items ++ String.ofList [c]).toList
      (l :: ([Lexeme.comma].intercalate lss ++ [m])) := by
  have hline := spells_joined ho hl hc hm h isGap_nil isGap_nil
  have hcomma : ",".toList = [','] := rfl
  simpa only [String.toList_append, String.toList_intercalate, String.toList_ofList, hcomma,
    List.append_assoc, List.cons_append, List.nil_append] using hline

end Brackets

section Contents

variable {write : Json → String}

theorem forall₂_items {vs : List Json} (h : ∀ v ∈ vs, Spells (write v).toList v.lexemes) :
    List.Forall₂ (fun item ls => Spells item.toList ls) (vs.map write) (itemLexemes vs) := by
  induction vs with
  | nil => exact .nil
  | cons v vs ih =>
    obtain ⟨hv, hvs⟩ := List.forall_mem_cons.mp h
    exact .cons hv (ih hvs)

/-- Behind the colon of a member there may be gaps. -/
theorem forall₂_members {gs : List Char} (hgs : ∀ c ∈ gs, isGap c = true)
    {ms : List (String × Json)} (h : ∀ m ∈ ms, Spells (write m.2).toList m.2.lexemes) :
    List.Forall₂ (fun item ls => Spells item.toList ls)
      (ms.map fun m => quote m.1 ++ String.ofList (':' :: gs) ++ write m.2) (memberLexemes ms) := by
  induction ms with
  | nil => exact .nil
  | cons m ms ih =>
    obtain ⟨hm, hms⟩ := List.forall_mem_cons.mp h
    refine .cons ?_ (ih hms)
    rw [String.toList_append, String.toList_append, String.toList_ofList, List.append_assoc]
    exact .quoted m.1 (.punctuation (by decide) rfl (.gaps hgs hm))

theorem compactItems_eq (vs : List Json) : compactItems vs = vs.map compact := by
  induction vs with
  | nil => rfl
  | cons v vs ih => rw [compactItems, ih, List.map_cons]

theorem compactMembers_eq (ms : List (String × Json)) :
    compactMembers ms = ms.map fun m => quote m.1 ++ String.ofList [':'] ++ m.2.compact := by
  induction ms with
  | nil => rfl
  | cons m ms ih => rw [compactMembers, ih, List.map_cons]

theorem prettyItems_eq (depth : Nat) (vs : List Json) :
    prettyItems depth vs = vs.map (prettyAt depth) := by
  induction vs with
  | nil => rfl
  | cons v vs ih => rw [prettyItems, ih, List.map_cons]

theorem prettyMembers_eq (depth : Nat) (ms : List (String × Json)) :
    prettyMembers depth ms =
      ms.map fun m => quote m.1 ++ String.ofList [':', ' '] ++ m.2.prettyAt depth := by
  induction ms with
  | nil => rfl
  | cons m ms ih => rw [prettyMembers, ih, List.map_cons]

end Contents

/-- A value without items and members, written as it is on one line and on several. -/
theorem spells_int {n : Int} (low : -2 ^ 63 ≤ n) (high : n < 2 ^ 64) :
    Spells n.repr.toList [.value (int n)] := by
  have hword := Lexeme.word?_repr low high
  have hne : n.repr.toList ≠ [] := by
    intro hnil
    rw [hnil] at hword
    cases hword
  exact .word hne (List.all_eq_true.mpr fun c hc => Lexeme.isWordChar_repr hc) hword

theorem spells_null : Spells "null".toList [.value null] := by
  have hnull : Spells ['n', 'u', 'l', 'l'] [.value null] := .word (by decide) (by decide) rfl
  exact hnull

theorem spells_bool (b : Bool) :
    Spells (if b then "true" else "false").toList [.value (bool b)] := by
  cases b
  · have hfalse : Spells ['f', 'a', 'l', 's', 'e'] [.value (bool false)] :=
      .word (by decide) (by decide) rfl
    exact hfalse
  · have htrue : Spells ['t', 'r', 'u', 'e'] [.value (bool true)] :=
      .word (by decide) (by decide) rfl
    exact htrue

theorem spells_str (s : String) : Spells (quote s).toList [.value (str s)] := by
  have hquoted := Lexeme.Spells.quoted s .nil
  rwa [List.append_nil] at hquoted

/-- The text of a value on one line spells its lexemes. -/
theorem IsReadable.spells_compact {room : Nat} {v : Json} (h : v.IsReadable room) :
    Spells v.compact.toList v.lexemes := by
  induction h with
  | null => exact spells_null
  | bool b => exact spells_bool b
  | int low high => exact spells_int low high
  | str s => exact spells_str s
  | list _ ih =>
    rw [compact, compactItems_eq]
    exact spells_line (by decide) rfl (by decide) rfl (forall₂_items ih)
  | object _ ih =>
    rw [compact, compactMembers_eq]
    exact spells_line (by decide) rfl (by decide) rfl (forall₂_members isGap_nil ih)

/-- The text of a value on several lines spells its lexemes. -/
theorem IsReadable.spells_prettyAt {room : Nat} {v : Json} (h : v.IsReadable room) (depth : Nat) :
    Spells (v.prettyAt depth).toList v.lexemes := by
  induction h generalizing depth with
  | null => exact spells_null
  | bool b => exact spells_bool b
  | int low high => exact spells_int low high
  | str s => exact spells_str s
  | list _ ih =>
    rw [prettyAt, prettyItems_eq]
    exact spells_block (by decide) rfl (by decide) rfl (forall₂_items fun v hv => ih v hv _) depth
  | object _ ih =>
    rw [prettyAt, prettyMembers_eq]
    exact spells_block (by decide) rfl (by decide) rfl
      (forall₂_members isGap_space fun m hm => ih m hm _) depth

/-- The text of a value, on one line or on several of which the first one may be indented. -/
def IsPrinted (v : Json) (text : String) : Prop :=
  text = v.compact ∨ ∃ depth, text = v.prettyAt depth

/-- The text of a value is read as that value with its members sorted. -/
theorem read?_of_isPrinted {v : Json} (hv : v.IsReadable maxDepth) {text : String}
    (h : v.IsPrinted text) : read? text = some v.sorted := by
  have hspells : Spells text.toList v.lexemes := by
    rcases h with rfl | ⟨depth, rfl⟩
    · exact hv.spells_compact
    · exact hv.spells_prettyAt depth
  have hlexemes := hspells [] (by rintro c ⟨⟩)
  have hempty : ([] : List Frame).length + maxDepth ≤ maxDepth := Nat.le_of_eq (Nat.zero_add _)
  have hcompletes := hv.completes hempty false
  rw [List.append_nil, Lexeme.ofChars?, Option.map_some, List.append_nil] at hlexemes
  rw [read?, hlexemes, Option.bind_some, hcompletes]
  rfl

end RollMarkup.Json
