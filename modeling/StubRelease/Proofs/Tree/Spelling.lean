/-
# StubRelease.Proofs.Tree.Spelling -- the place a path spells

In a tree without links the place a path leads to follows from its spelling: every `.` stays, every `..`
goes up, every name goes down. `Path.place` is that place. Main statement: an entry of a directory,
written after the directory's path, is one step further (`hopsOf_div`), and what is read of such a path
besides its hops is what is read of the directory's own.
-/
import StubRelease.Path
import StubRelease.Tree.Route

namespace StubRelease

open Route (slashByte hopsOf)

/-- A name that is one step of a path. -/
structure IsName (name : Name) : Prop where
  ne_nil : name ≠ []
  ne_here : name ≠ [Bytes.ofChar '.']
  ne_up : name ≠ [Bytes.ofChar '.', Bytes.ofChar '.']
  no_slash : slashByte ∉ name
  no_nul : (0 : UInt8) ∉ name

theorem isName_iff {name : Name} : IsName name ↔ name ≠ [] ∧ name ≠ [Bytes.ofChar '.'] ∧
    name ≠ [Bytes.ofChar '.', Bytes.ofChar '.'] ∧ slashByte ∉ name ∧ (0 : UInt8) ∉ name := by
  constructor
  · rintro ⟨h₁, h₂, h₃, h₄, h₅⟩
    exact ⟨h₁, h₂, h₃, h₄, h₅⟩
  · rintro ⟨h₁, h₂, h₃, h₄, h₅⟩
    exact ⟨h₁, h₂, h₃, h₄, h₅⟩

instance (name : Name) : Decidable (IsName name) := decidable_of_iff _ isName_iff.symm

/-! ## Pieces -/

theorem Path.pieces_of_forall {α : Type} {sep : α → Bool} {as : List α}
    (h : ∀ a ∈ as, sep a = false) : Path.pieces sep as = [as] := by
  induction as with
  | nil => rfl
  | cons a rest ih =>
    rw [Path.pieces, h a (by simp), ih fun b hb => h b (List.mem_cons_of_mem a hb)]
    rfl

/-- A name holds no slash to be cut at. -/
theorem Path.pieces_of_isName {name : Name} (h : IsName name) :
    Path.pieces (· == slashByte) name = [name] := by
  apply Path.pieces_of_forall
  intro b hb
  rw [beq_eq_false_iff_ne]
  rintro rfl
  exact h.no_slash hb

namespace Route

@[simp] theorem hopsOf_nil : hopsOf [] = [] := rfl

/-- A name is one hop. -/
theorem hopsOf_name {name : Name} (h : IsName name) : hopsOf name = [.into name] := by
  rw [hopsOf, Path.pieces_of_isName h]
  simp [Hop.ofPiece?, h.ne_nil, h.ne_here, h.ne_up]

/-- A slash at the end of a path adds no hop. -/
theorem hopsOf_append_slash_nil (bs : Bytes) : hopsOf (bs ++ [slashByte]) = hopsOf bs := by
  rw [hopsOf_append_slash, hopsOf_nil, List.append_nil]

end Route

/-- What is read of a path that the operating system accepts. -/
theorem Route.read_eq_ok {bs : Bytes} {r : Route} (h : Route.read bs = .ok r) :
    (0 : UInt8) ∉ bs ∧ bs.length < Route.lengthLimit ∧ r = Route.ofBytes bs := by
  rw [Route.read] at h
  split at h
  · cases h
  · rename_i hnul
    split at h
    · cases h
    · split at h
      · cases h
      · rename_i hfits
        exact ⟨hnul, Nat.lt_of_not_le hfits, (Except.ok.inj h).symm⟩

/-! ## Bytes of texts -/

namespace Bytes

@[simp] theorem ofString_ofList_cons (c : Char) (cs : List Char) :
    ofString (String.ofList (c :: cs)) = ofString (String.ofList [c]) ++ ofString (String.ofList cs) := by
  rw [← ofString_append, ← String.ofList_append]
  rfl

theorem ofString_slash : ofString (String.ofList ['/']) = [slashByte] := by decide

@[simp] theorem ofString_empty : ofString "" = [] := by decide

/-- A text that begins with a slash has a slash among its bytes, at the front. -/
theorem head_of_slash {text : String} (h : text.toList.head? = some '/') :
    ∃ rest, ofString text = slashByte :: rest := by
  obtain ⟨cs, hcs⟩ : ∃ cs, text.toList = '/' :: cs := by
    cases hl : text.toList with
    | nil => simp [hl] at h
    | cons c cs =>
      rw [hl] at h
      exact ⟨cs, by rw [Option.some.inj h]⟩
  refine ⟨ofString (String.ofList cs), ?_⟩
  rw [← String.ofList_toList (s := text), hcs, ofString_ofList_cons, ofString_slash]
  rfl

/-- A text that ends in a slash is a text and a slash. -/
theorem split_of_slash {text : String} (h : text.toList.getLast? = some '/') :
    ∃ front, ofString text = front ++ [slashByte] := by
  refine ⟨ofString (String.ofList text.toList.dropLast), ?_⟩
  have hne : text.toList ≠ [] := by
    intro hnil
    simp [hnil] at h
  have hlast : text.toList.getLast hne = '/' := by
    simpa [List.getLast?_eq_some_getLast hne] using h
  rw [← ofString_slash, ← ofString_append, ← String.ofList_append, ← hlast,
    List.dropLast_concat_getLast, String.ofList_toList]

end Bytes

/-! ## An entry of a directory -/

namespace Path

theorem isAbsolute_of_isName {text : String} (hname : IsName (Bytes.ofString text)) :
    isAbsolute ⟨text⟩ = false := by
  cases habs : isAbsolute ⟨text⟩ with
  | false => rfl
  | true =>
    have hhead : text.toList.head? = some '/' := by simpa [isAbsolute] using habs
    obtain ⟨rest, hrest⟩ := Bytes.head_of_slash hhead
    exact absurd (hrest ▸ List.mem_cons_self) hname.no_slash

/-- A path of an entry is as long as the directory's path and the name, and a slash if one is needed. -/
theorem length_bytes_div {p : Path} {text : String} (hname : IsName (Bytes.ofString text)) :
    (p / text).bytes.length =
      p.bytes.length + (if p.needsSlash then 1 else 0) + (Bytes.ofString text).length := by
  have hlength : (Bytes.ofString "/").length = 1 := by decide
  rw [div_eq, join, isAbsolute_of_isName hname]
  cases p.needsSlash <;> simp [bytes, hlength, Nat.add_assoc]

/-- A path of an entry is the directory's path, a slash and the name, up to a slash the directory's path
may end in itself. Seen from the empty path it is the name. -/
theorem bytes_div {p : Path} {text : String} (hname : IsName (Bytes.ofString text)) :
    p.bytes = [] ∧ (p / text).bytes = Bytes.ofString text ∨
      ∃ front, (p / text).bytes = front ++ slashByte :: Bytes.ofString text ∧
        (p.bytes = front ∧ front ≠ [] ∨ p.bytes = front ++ [slashByte]) := by
  rw [div_eq, join, isAbsolute_of_isName hname]
  cases hslash : p.needsSlash with
  | true =>
    have hne : p.bytes ≠ [] := by
      intro hnil
      have hempty : p.text = "" := Bytes.ofString_injective (hnil.trans Bytes.ofString_empty.symm)
      simp [needsSlash, hempty] at hslash
    have : Bytes.ofString "/" = [slashByte] := by decide
    refine .inr ⟨p.bytes, ?_, .inl ⟨rfl, hne⟩⟩
    simp [bytes, this]
  | false =>
    cases hlast : p.text.toList.getLast? with
    | none =>
      have hempty : p.text = "" := by
        rw [← String.toList_inj, List.getLast?_eq_none_iff.1 hlast]
        rfl
      exact .inl (by simp [bytes, hempty])
    | some c =>
      obtain rfl : c = '/' := by simpa [needsSlash, hlast] using hslash
      obtain ⟨front, hfront⟩ := Bytes.split_of_slash hlast
      exact .inr ⟨front, by simp [bytes, hfront], .inr hfront⟩

theorem head_bytes {p : Path} (hp : p.isAbsolute = true) : p.bytes.head? = some slashByte := by
  have hhead : p.text.toList.head? = some '/' := by simpa [isAbsolute] using hp
  obtain ⟨rest, hrest⟩ := Bytes.head_of_slash hhead
  rw [bytes, hrest]
  rfl

theorem isAbsolute_div {p : Path} (text : String) (hp : p.isAbsolute = true) :
    (p / text).isAbsolute = true := by
  rw [div_eq]
  exact isAbsolute_join _ hp

variable {p : Path} {text : String} (hname : IsName (Bytes.ofString text))

include hname

/-- The way to an entry is the way to the directory and one step more. -/
theorem hopsOf_div : hopsOf (p / text).bytes = hopsOf p.bytes ++ [.into (Bytes.ofString text)] := by
  obtain ⟨hnil, hbytes⟩ | ⟨front, hbytes, hfront⟩ := bytes_div (p := p) hname
  · rw [hnil, hbytes, Route.hopsOf_name hname]
    rfl
  · have hhops : hopsOf p.bytes = hopsOf front := by
      rcases hfront with ⟨h, -⟩ | h
      · rw [h]
      · rw [h, Route.hopsOf_append_slash_nil]
    rw [hbytes, Route.hopsOf_append_slash, hhops, Route.hopsOf_name hname]

theorem mem_bytes_div : (0 : UInt8) ∈ (p / text).bytes ↔ (0 : UInt8) ∈ p.bytes := by
  have hslash : (0 : UInt8) ≠ slashByte := by decide
  obtain ⟨hnil, hbytes⟩ | ⟨front, hbytes, hfront⟩ := bytes_div (p := p) hname
  · simp [hnil, hbytes, hname.no_nul]
  · rw [hbytes]
    rcases hfront with ⟨h, -⟩ | h <;> simp [h, hname.no_nul, hslash]

/-- The way to an entry starts where the way to the directory does. -/
theorem head_bytes_div : ((p / text).bytes.head? == some slashByte) = (p.bytes.head? == some slashByte) := by
  obtain ⟨hnil, hbytes⟩ | ⟨front, hbytes, hfront⟩ := bytes_div (p := p) hname
  · obtain ⟨b, rest, hcons⟩ := List.exists_cons_of_ne_nil hname.ne_nil
    have hb : b ≠ slashByte := by
      rintro rfl
      exact hname.no_slash (hcons ▸ List.mem_cons_self)
    simp [hnil, hbytes, hcons, hb]
  · rcases hfront with ⟨h, hne⟩ | h
    · obtain ⟨b, rest, rfl⟩ := List.exists_cons_of_ne_nil hne
      simp [hbytes, h]
    · cases front <;> simp [hbytes, h]

theorem getLast_bytes_div : (p / text).bytes.getLast? ≠ some slashByte := by
  have hlast (front : Bytes) : (front ++ Bytes.ofString text).getLast? =
      some ((Bytes.ofString text).getLast hname.ne_nil) := by
    rw [List.getLast?_append, List.getLast?_eq_some_getLast hname.ne_nil]
    rfl
  have hends : ∃ front, (p / text).bytes = front ++ Bytes.ofString text := by
    obtain ⟨-, hbytes⟩ | ⟨front, hbytes, -⟩ := bytes_div (p := p) hname
    · exact ⟨[], hbytes⟩
    · exact ⟨front ++ [slashByte], by simp [hbytes]⟩
  obtain ⟨front, hbytes⟩ := hends
  rw [hbytes, hlast]
  intro h
  exact hname.no_slash (Option.some.inj h ▸ List.getLast_mem hname.ne_nil)

theorem length_bytes_lt_div : p.bytes.length < (p / text).bytes.length := by
  have hne : 0 < (Bytes.ofString text).length := List.length_pos_iff.2 hname.ne_nil
  rw [length_bytes_div hname]
  omega

theorem length_bytes_div_le : (p / text).bytes.length ≤ p.bytes.length + 1 + (Bytes.ofString text).length := by
  rw [length_bytes_div hname]
  split <;> omega

theorem bytes_div_ne_nil : (p / text).bytes ≠ [] := by
  have hlt := length_bytes_lt_div (p := p) hname
  intro hnil
  rw [hnil] at hlt
  cases hlt

/-- After a path of an entry a slash is needed. -/
theorem needsSlash_div : (p / text).needsSlash = true := by
  have hne : (p / text).bytes ≠ [] := bytes_div_ne_nil hname
  rw [needsSlash]
  cases hlast : (p / text).text.toList.getLast? with
  | none =>
    have hempty : (p / text).text = "" := by
      rw [← String.toList_inj, List.getLast?_eq_none_iff.1 hlast]
      rfl
    exact absurd (by rw [bytes, hempty, Bytes.ofString_empty]) hne
  | some c =>
    have hc : c ≠ '/' := by
      rintro rfl
      obtain ⟨front, hfront⟩ := Bytes.split_of_slash hlast
      exact getLast_bytes_div (p := p) hname (by rw [bytes, hfront, List.getLast?_concat])
    simpa using hc

end Path

/-- What is read of a path of an entry. -/
theorem Route.ofBytes_div {p : Path} {text : String} (hname : IsName (Bytes.ofString text)) :
    Route.ofBytes (p / text).bytes =
      ⟨(Route.ofBytes p.bytes).absolute, hopsOf p.bytes ++ [.into (Bytes.ofString text)], false⟩ := by
  rw [Route.ofBytes, Path.head_bytes_div hname, Path.hopsOf_div hname]
  simp [Route.ofBytes, Path.getLast_bytes_div hname]

/-! ## Slashes at the end -/

/-- A path with slashes at its end. -/
def Path.slashed (p : Path) (n : Nat) : Path := ⟨p.text ++ String.ofList (List.replicate n '/')⟩

theorem Path.bytes_slashed (p : Path) (n : Nat) :
    (p.slashed n).bytes = p.bytes ++ List.replicate n Route.slashByte := by
  have hslashes : Bytes.ofString (String.ofList (List.replicate n '/')) = List.replicate n Route.slashByte := by
    induction n with
    | zero => simp
    | succ n ih => rw [List.replicate_succ, Bytes.ofString_ofList_cons, Bytes.ofString_slash, ih, List.replicate_succ,
        List.singleton_append]
  rw [bytes, slashed, Bytes.ofString_append, hslashes]
  rfl

/-- Slashes at the end of a path lead nowhere else. -/
theorem Path.hopsOf_slashed (p : Path) (n : Nat) : Route.hopsOf (p.slashed n).bytes = Route.hopsOf p.bytes := by
  rw [bytes_slashed]
  induction n with
  | zero => simp
  | succ n ih => rw [List.replicate_succ', ← List.append_assoc, Route.hopsOf_append_slash_nil, ih]

theorem Path.isAbsolute_slashed {p : Path} (h : p.isAbsolute = true) (n : Nat) :
    (p.slashed n).isAbsolute = true := by
  have hhead : p.text.toList.head? = some '/' := by simpa [isAbsolute] using h
  obtain ⟨rest, hrest⟩ := List.head?_eq_some_iff.1 hhead
  exact isAbsolute_of_head (by rw [slashed, String.toList_append, hrest]; rfl)

/-- What is read of a path with slashes at its end. -/
theorem Route.read_slashed {p : Path} {n : Nat} (hnul : (0 : UInt8) ∉ p.bytes) (hp : p.isAbsolute = true) (hn : 0 < n)
    (hshort : p.bytes.length + n < lengthLimit) :
    read (p.slashed n).bytes = .ok ⟨true, hopsOf p.bytes, true⟩ := by
  have hnul' : (0 : UInt8) ∉ (p.slashed n).bytes := by
    rw [Path.bytes_slashed, List.mem_append, List.mem_replicate]
    rintro (hmem | ⟨-, hzero⟩)
    · exact hnul hmem
    · cases hzero
  have hlast : (p.slashed n).bytes.getLast? = some slashByte := by
    obtain ⟨k, rfl⟩ := Nat.exists_eq_add_of_lt hn
    rw [Path.bytes_slashed, List.replicate_succ', ← List.append_assoc, List.getLast?_concat]
  have hne : (p.slashed n).bytes ≠ [] := by
    intro hnil
    simp [hnil] at hlast
  have hlength : ¬ lengthLimit ≤ (p.slashed n).bytes.length := by
    rw [Path.bytes_slashed, List.length_append, List.length_replicate]
    omega
  rw [read, if_neg hnul', if_neg hne, if_neg hlength, ofBytes, Path.hopsOf_slashed, hlast,
    Path.head_bytes (Path.isAbsolute_slashed hp n)]
  simp

end StubRelease
