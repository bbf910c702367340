import Mathlib.Data.List.Basic

/-!
# Names that the application and the controller derive alike

The namespace of an Owner and the Service of a Sandbox have computed names.
Both programs compute them with these functions, without asking the cluster.
-/

namespace Vanyline.Crds

/-- The port of the sandbox server. -/
def mcpPort : Nat := 3000

/-- The Service in front of a sandbox. -/
def serviceName (sandboxName : List Char) : List Char := "sandbox-".toList ++ sandboxName

/-- The characters of a DNS label. -/
def isLabelChar (c : Char) : Bool := c.isLower || c.isDigit || c == '-'

/-- The number of bytes of a text. -/
def byteLength (s : List Char) : Nat := s.foldr (fun c n => c.utf8Size + n) 0

/-- The namespace of an Owner, `{app}-{owner}`, when that is a DNS label of at
most 63 characters. -/
def ownerNamespaceName (appNamespace owner : List Char) : Except (List Char) (List Char) :=
  let name := appNamespace ++ '-' :: owner
  if byteLength name > 63 then
    .error ("namespace d'Owner «".toList ++ name ++ "» invalide : ".toList ++
      (toString (byteLength name)).toList ++ " caracteres > 63".toList)
  else if name.all isLabelChar && name.head?.any Char.isAlphanum &&
      name.getLast?.any Char.isAlphanum then .ok name
  else
    .error ("namespace d'Owner «".toList ++ name ++
      "» invalide : un label DNS-1123 n'admet que des minuscules, des chiffres et des `-`, ".toList ++
      "et doit commencer et finir par un alphanumérique".toList)

/-- A namespace name is the two parts with a dash between them, and consists of
label characters. -/
theorem ownerNamespaceName_ok {appNamespace owner ns : List Char}
    (h : ownerNamespaceName appNamespace owner = .ok ns) :
    ns = appNamespace ++ '-' :: owner ∧ ∀ c ∈ ns, isLabelChar c = true := by
  simp only [ownerNamespaceName] at h
  split_ifs at h with hlen hvalid
  simp only [Except.ok.injEq] at h
  subst h
  simp only [Bool.and_eq_true, List.all_eq_true] at hvalid
  exact ⟨rfl, hvalid.1.1⟩

/-! ## DNS labels -/

/-- Lower-case letters, digits and dashes, with a letter or digit at both ends. -/
structure LabelText (s : List Char) : Prop where
  chars : ∀ c ∈ s, isLabelChar c = true
  first : s.head?.any Char.isAlphanum = true
  last : s.getLast?.any Char.isAlphanum = true

/-- A DNS label has at most 63 characters. -/
structure IsLabel (s : List Char) : Prop extends LabelText s where
  length_le : s.length ≤ 63

/-- A namespace, or any other name that is a DNS label. -/
structure Label where
  text : List Char
  isLabel : IsLabel text

theorem isLabel_iff {s : List Char} : IsLabel s ↔ LabelText s ∧ s.length ≤ 63 :=
  ⟨fun h => ⟨h.toLabelText, h.length_le⟩, fun h => ⟨h.1, h.2⟩⟩

instance (s : List Char) : Decidable (LabelText s) :=
  decidable_of_iff (s.all isLabelChar = true ∧ s.head?.any Char.isAlphanum = true ∧
    s.getLast?.any Char.isAlphanum = true)
    ⟨fun h => ⟨List.all_eq_true.1 h.1, h.2.1, h.2.2⟩,
      fun h => ⟨List.all_eq_true.2 h.chars, h.first, h.last⟩⟩

instance (s : List Char) : Decidable (IsLabel s) := decidable_of_iff _ isLabel_iff.symm

/-- Two label texts with a dash between them. -/
theorem LabelText.join {a b : List Char} (ha : LabelText a) (hb : LabelText b) :
    LabelText (a ++ '-' :: b) where
  chars := by
    intro c hc
    rcases List.mem_append.1 hc with hc | hc
    · exact ha.chars c hc
    · rcases List.mem_cons.1 hc with rfl | hc
      · rfl
      · exact hb.chars c hc
  first := by
    have hfirst := ha.first
    cases a with
    | nil => cases hfirst
    | cons c a => exact hfirst
  last := by
    have hlast := hb.last
    cases b with
    | nil => cases hlast
    | cons c b => rw [List.getLast?_append_cons, List.getLast?_cons_cons]; exact hlast

/-- Label characters take one byte. -/
theorem byteLength_eq_length {s : List Char} (h : ∀ c ∈ s, isLabelChar c = true) :
    byteLength s = s.length := by
  induction s with
  | nil => rfl
  | cons c s ih =>
      have hsize : c.utf8Size = 1 := by
        have hc := h c (List.mem_cons_self ..)
        unfold isLabelChar at hc
        delta Char.isLower Char.isDigit at hc
        simp only [Bool.or_eq_true, Bool.and_eq_true, decide_eq_true_eq, beq_iff_eq, ge_iff_le,
          UInt32.le_iff_toNat_le] at hc
        rw [Char.utf8Size_eq_one_iff, UInt32.le_iff_toNat_le]
        rcases hc with (⟨-, hle⟩ | ⟨-, hle⟩) | rfl
        · exact Nat.le_trans hle (by decide)
        · exact Nat.le_trans hle (by decide)
        · decide
      show c.utf8Size + byteLength s = s.length + 1
      rw [ih fun d hd => h d (List.mem_cons_of_mem _ hd), hsize]
      omega

theorem ownerNamespaceName_isOk_iff {appNamespace owner : List Char} :
    (∃ ns, ownerNamespaceName appNamespace owner = .ok ns) ↔
      IsLabel (appNamespace ++ '-' :: owner) := by
  constructor
  · rintro ⟨ns, h⟩
    simp only [ownerNamespaceName] at h
    split_ifs at h with hlen hvalid
    simp only [Bool.and_eq_true, List.all_eq_true] at hvalid
    have htext : LabelText (appNamespace ++ '-' :: owner) := ⟨hvalid.1.1, hvalid.1.2, hvalid.2⟩
    rw [byteLength_eq_length htext.chars] at hlen
    exact ⟨htext, by omega⟩
  · intro h
    have hlen : ¬ byteLength (appNamespace ++ '-' :: owner) > 63 := by
      have hle := h.length_le
      rw [byteLength_eq_length h.chars]
      omega
    refine ⟨appNamespace ++ '-' :: owner, ?_⟩
    simp only [ownerNamespaceName]
    rw [if_neg hlen, if_pos]
    simp only [Bool.and_eq_true, List.all_eq_true]
    exact ⟨⟨h.chars, h.first⟩, h.last⟩

end Vanyline.Crds
