import FraiseQL.CacheKeyInjective
import FraiseQL.JsonText

/-! The part of a response's key that stands for the caller (`hash_security_context`), as the calls on the hasher.
Roles are closed by the discriminant of the tenant; nothing closes the scopes, so that the last of them read as the
names and texts of attributes. -/

namespace FraiseQL.CacheResponse

open CacheKey PrefixCode List

/-- `str::hash`. -/
def hashStr (s : String) : List CacheKey.HashToken := [.bytes s, .u8 255]

/-- `Option<String>::hash`. -/
def hashOptionStr : Option String → List CacheKey.HashToken
  | none => [.isize 0]
  | some s => .isize 1 :: hashStr s

/-- `sort`. -/
def sortedTexts (texts : List String) : List String := texts.mergeSort fun a b => decide (a ≤ b)

/-- The names of the attributes in order, each with the text of its value. -/
def attributeTexts (ctx : SecurityContext) : List String :=
  (sortEntries ctx.attributes).flatMap fun e => [e.1, e.2.text]

/-- `hash_security_context` of a context. -/
def hashSecurityContext (ctx : SecurityContext) : List CacheKey.HashToken :=
  hashStr ctx.userId ++ (sortedTexts ctx.roles).flatMap hashStr ++ hashOptionStr ctx.tenantId ++
    (sortedTexts ctx.scopes).flatMap hashStr ++ (attributeTexts ctx).flatMap hashStr

/-- A context as it is built: the attributes are a map of values. -/
structure Built (ctx : SecurityContext) : Prop where
  keys : (ctx.attributes.map Prod.fst).Nodup
  values : ∀ e ∈ ctx.attributes, Held e.2

/-- Two contexts with the same claims, up to order. -/
structure SameClaims (ctx ctx' : SecurityContext) : Prop where
  userId : ctx.userId = ctx'.userId
  tenantId : ctx.tenantId = ctx'.tenantId
  roles : ∀ role, role ∈ ctx.roles ↔ role ∈ ctx'.roles
  scopes : ∀ scope, scope ∈ ctx.scopes ↔ scope ∈ ctx'.scopes
  attributes : ctx.attributes.Perm ctx'.attributes

/-- The last scopes of the second context are the names and texts of the first attributes of the first one, and
nothing else tells the two apart. -/
structure Misread (ctx ctx' : SecurityContext) : Prop where
  userId : ctx.userId = ctx'.userId
  tenantId : ctx.tenantId = ctx'.tenantId
  roles : sortedTexts ctx.roles = sortedTexts ctx'.roles
  scopes : ∃ extra, extra ≠ [] ∧ sortedTexts ctx'.scopes = sortedTexts ctx.scopes ++ extra ∧
    attributeTexts ctx = extra ++ attributeTexts ctx'

theorem mem_sortedTexts {texts : List String} {s : String} : s ∈ sortedTexts texts ↔ s ∈ texts :=
  (mergeSort_perm texts _).mem_iff

theorem mem_sortEntries {entries : List (String × Json)} {e : String × Json} : e ∈ sortEntries entries ↔ e ∈ entries :=
  (mergeSort_perm entries _).mem_iff

/-! ### What the calls determine -/

theorem hashStr_decodes : Decodes (fun _ => True) hashStr := by
  intro a b _ _ x y heq
  simp only [hashStr, cons_append, nil_append, cons.injEq, CacheKey.HashToken.bytes.injEq, true_and] at heq
  exact heq

variable {as bs : List String}

/-- Texts alone are read back. -/
theorem hashStrs_inj (heq : as.flatMap hashStr = bs.flatMap hashStr) : as = bs := by
  have hlength := congrArg length heq
  simp only [length_flatMap, hashStr, length_cons, length_nil, map_const',
    sum_replicate_nat] at hlength
  refine (hashStr_decodes.sequence as bs (by omega) (fun _ _ => trivial) (fun _ _ => trivial) [] [] ?_).1
  rw [heq]

theorem hashStrs_bytes (as : List String) : ∀ t ∈ as.flatMap hashStr, ∀ n, t ≠ .isize n := by
  intro t ht n
  obtain ⟨a, -, ha⟩ := mem_flatMap.mp ht
  simp only [hashStr, mem_cons, not_mem_nil, or_false] at ha
  rcases ha with rfl | rfl <;> rintro ⟨⟩

theorem hashOptionStr_start (o : Option String) : ∃ n rest, hashOptionStr o = .isize n :: rest := by
  cases o with
  | none => exact ⟨0, [], rfl⟩
  | some s => exact ⟨1, hashStr s, rfl⟩

theorem hashOptionStr_decodes : Decodes (fun _ => True) hashOptionStr := by
  intro a b _ _ x y heq
  cases a with
  | none =>
    cases b with
    | none => exact ⟨rfl, (cons.inj heq).2⟩
    | some s => exact absurd (cons.inj heq).1 (by decide)
  | some r =>
    cases b with
    | none => exact absurd (cons.inj heq).1 (by decide)
    | some s =>
      obtain ⟨rfl, hxy⟩ := hashStr_decodes r s trivial trivial x y (cons.inj heq).2
      exact ⟨rfl, hxy⟩

/-- The roles end at the discriminant of the tenant. -/
theorem hashRoles_decodes {a b : Option String} {x y : List CacheKey.HashToken}
    (heq : as.flatMap hashStr ++ (hashOptionStr a ++ x) = bs.flatMap hashStr ++ (hashOptionStr b ++ y)) :
    as = bs ∧ a = b ∧ x = y := by
  obtain ⟨m, arest, ha⟩ := hashOptionStr_start a
  obtain ⟨n, brest, hb⟩ := hashOptionStr_start b
  have hrun := heq
  rw [ha, hb] at hrun
  obtain ⟨hroles, -⟩ := run_until (fun t => ∀ n, t ≠ .isize n) _ _ _ _ (hashStrs_bytes as) (hashStrs_bytes bs)
    (fun h => h m rfl) (fun h => h n rfl) hrun
  rw [hroles] at heq
  obtain ⟨hab, hxy⟩ := hashOptionStr_decodes a b trivial trivial x y (append_cancel_left heq)
  exact ⟨hashStrs_inj hroles, hab, hxy⟩

/-- The calls are the same exactly when user, roles and tenant are, and the scopes followed by the attributes. -/
theorem hashSecurityContext_eq_iff (ctx ctx' : SecurityContext) :
    hashSecurityContext ctx = hashSecurityContext ctx' ↔
      ctx.userId = ctx'.userId ∧ sortedTexts ctx.roles = sortedTexts ctx'.roles ∧ ctx.tenantId = ctx'.tenantId ∧
        sortedTexts ctx.scopes ++ attributeTexts ctx = sortedTexts ctx'.scopes ++ attributeTexts ctx' := by
  constructor
  · intro heq
    simp only [hashSecurityContext, append_assoc] at heq
    obtain ⟨huser, hrest⟩ := hashStr_decodes _ _ trivial trivial _ _ heq
    obtain ⟨hroles, htenant, htail⟩ := hashRoles_decodes hrest
    rw [← flatMap_append, ← flatMap_append] at htail
    exact ⟨huser, hroles, htenant, hashStrs_inj htail⟩
  · rintro ⟨huser, hroles, htenant, htail⟩
    simp only [hashSecurityContext, append_assoc]
    rw [← flatMap_append, ← flatMap_append, huser, hroles, htenant, htail]

theorem attributeTexts_length (ctx : SecurityContext) : (attributeTexts ctx).length = 2 * ctx.attributes.length := by
  simp [attributeTexts, sortEntries, length_flatMap, Nat.mul_comm]

theorem pairs_decodes : Decodes (fun e => Held e.2) fun e : String × Json => [e.1, e.2.text] := by
  rintro ⟨k, v⟩ ⟨k', v'⟩ hv hv' x y heq
  simp only [cons_append, nil_append, cons.injEq] at heq
  obtain ⟨rfl, htext, hxy⟩ := heq
  obtain rfl := Json.text_injective hv hv' htext
  exact ⟨rfl, hxy⟩

variable {ctx ctx' : SecurityContext}

theorem attributes_perm (hbuilt : Built ctx) (hbuilt' : Built ctx')
    (heq : attributeTexts ctx = attributeTexts ctx') : ctx.attributes.Perm ctx'.attributes := by
  have hlength := congrArg length heq
  rw [attributeTexts_length, attributeTexts_length] at hlength
  have hsorted : sortEntries ctx.attributes = sortEntries ctx'.attributes := by
    refine (pairs_decodes.sequence _ _ ?_ ?_ ?_ [] [] (congrArg (· ++ []) heq)).1
    · rw [sortEntries, sortEntries, length_mergeSort, length_mergeSort]
      omega
    · exact fun e he => hbuilt.values e (mem_sortEntries.mp he)
    · exact fun e he => hbuilt'.values e (mem_sortEntries.mp he)
  have hperm : (sortEntries ctx.attributes).Perm ctx'.attributes := by
    rw [hsorted]
    exact mergeSort_perm _ _
  exact (mergeSort_perm ctx.attributes _).symm.trans hperm

theorem mem_iff_of_sortedTexts (h : sortedTexts as = sortedTexts bs) (a : String) : a ∈ as ↔ a ∈ bs := by
  calc a ∈ as
      ↔ a ∈ sortedTexts as := mem_sortedTexts.symm
    _ ↔ a ∈ sortedTexts bs := by rw [h]
    _ ↔ a ∈ bs := mem_sortedTexts

/-! ### Contexts that are told apart -/

theorem Misread.sameCalls (h : Misread ctx ctx') : hashSecurityContext ctx = hashSecurityContext ctx' := by
  obtain ⟨extra, -, hscopes, htexts⟩ := h.scopes
  refine (hashSecurityContext_eq_iff ctx ctx').mpr ⟨h.userId, h.roles, h.tenantId, ?_⟩
  rw [hscopes, htexts, append_assoc]

theorem Misread.otherAttributes (h : Misread ctx ctx') : ctx.attributes.length ≠ ctx'.attributes.length := by
  obtain ⟨extra, hextra, -, htexts⟩ := h.scopes
  have hlength := congrArg length htexts
  rw [length_append, attributeTexts_length, attributeTexts_length] at hlength
  have hpos := length_pos_iff.mpr hextra
  omega

/-- The name and the text of an attribute are scopes of the other context. -/
theorem Misread.exists_attribute (h : Misread ctx ctx') :
    ∃ e ∈ ctx.attributes, e.1 ∈ ctx'.scopes ∧ e.2.text ∈ ctx'.scopes := by
  obtain ⟨extra, hextra, hscopes, htexts⟩ := h.scopes
  have hmem : ∀ s ∈ extra, s ∈ ctx'.scopes := by
    intro s hs
    rw [← mem_sortedTexts, hscopes]
    exact mem_append_right _ hs
  have hlength := congrArg length htexts
  rw [length_append, attributeTexts_length, attributeTexts_length] at hlength
  cases hentries : sortEntries ctx.attributes with
  | nil =>
    rw [attributeTexts, hentries, flatMap_nil] at htexts
    exact absurd (append_eq_nil_iff.mp htexts.symm).1 hextra
  | cons e entries =>
    rw [attributeTexts, hentries] at htexts
    have he : e ∈ ctx.attributes := by
      rw [← mem_sortEntries, hentries]
      exact mem_cons_self
    match extra, hextra, hmem, htexts, hlength with
    | [_], _, _, _, hlength => simp at hlength; omega
    | name :: text :: _, _, hmem, htexts, _ =>
      simp only [flatMap_cons, cons_append, nil_append, cons.injEq] at htexts
      obtain ⟨hname, htext, -⟩ := htexts
      refine ⟨e, he, ?_, ?_⟩
      · rw [hname]
        exact hmem name mem_cons_self
      · rw [htext]
        exact hmem text (mem_cons_of_mem _ mem_cons_self)

/-- Contexts with the same calls have the same claims exactly when neither is misread as the other. -/
theorem sameClaims_iff_not_misread {ctx ctx' : SecurityContext} (hbuilt : Built ctx) (hbuilt' : Built ctx') :
    (hashSecurityContext ctx = hashSecurityContext ctx' → SameClaims ctx ctx') ↔
      ¬Misread ctx ctx' ∧ ¬Misread ctx' ctx := by
  constructor
  · intro hsame
    constructor
    · intro hmisread
      exact hmisread.otherAttributes (hsame hmisread.sameCalls).attributes.length_eq
    · intro hmisread
      exact hmisread.otherAttributes (hsame hmisread.sameCalls.symm).attributes.length_eq.symm
  · rintro ⟨hnot, hnot'⟩ heq
    obtain ⟨huser, hroles, htenant, htail⟩ := (hashSecurityContext_eq_iff ctx ctx').mp heq
    have hparts : sortedTexts ctx.scopes = sortedTexts ctx'.scopes ∧ attributeTexts ctx = attributeTexts ctx' := by
      rcases append_eq_append_iff.mp htail with ⟨extra, hscopes, htexts⟩ | ⟨extra, hscopes, htexts⟩
      · by_cases hextra : extra = []
        · subst hextra
          exact ⟨by rw [hscopes, append_nil], by rw [htexts, nil_append]⟩
        · exact absurd ⟨huser, htenant, hroles, extra, hextra, hscopes, htexts⟩ hnot
      · by_cases hextra : extra = []
        · subst hextra
          exact ⟨by rw [hscopes, append_nil], by rw [htexts, nil_append]⟩
        · exact absurd ⟨huser.symm, htenant.symm, hroles.symm, extra, hextra, hscopes, htexts⟩ hnot'
    exact ⟨huser, htenant, mem_iff_of_sortedTexts hroles, mem_iff_of_sortedTexts hparts.1,
      attributes_perm hbuilt hbuilt' hparts.2⟩

/-- A user with the scopes and attributes given. -/
def exampleContext (scopes : List String) (attributes : List (String × Json)) : SecurityContext where
  userId := "ada"
  roles := ["viewer"]
  tenantId := some "acme"
  scopes := scopes
  attributes := attributes
  requestId := "r1"
  ipAddress := none
  authenticatedAt := 0
  expiresAt := 3600
  issuer := none
  audience := none

theorem built_exampleContext (scopes : List String) : Built (exampleContext scopes []) := ⟨.nil, nofun⟩

theorem built_internal (scopes : List String) : Built (exampleContext scopes [("internal", .bool true)]) := by
  refine ⟨nodup_singleton _, ?_⟩
  intro e he
  obtain rfl := mem_singleton.mp he
  trivial

/-- A scope that is not the text of an attribute. -/
theorem scope_told_apart :
    hashSecurityContext (exampleContext ["read:user"] [("internal", .bool true)]) ≠
        hashSecurityContext (exampleContext ["internal", "read:user"] []) ∨
      SameClaims (exampleContext ["read:user"] [("internal", .bool true)])
        (exampleContext ["internal", "read:user"] []) := by
  refine imp_iff_not_or.mp ((sameClaims_iff_not_misread (built_internal _) (built_exampleContext _)).mpr ⟨?_, ?_⟩)
  · intro hmisread
    obtain ⟨e, he, -, htext⟩ := hmisread.exists_attribute
    obtain rfl := mem_singleton.mp he
    revert htext
    decide
  · intro hmisread
    obtain ⟨e, he, -⟩ := hmisread.exists_attribute
    cases he

/-- An attribute of one context, two scopes of the other. -/
theorem scopes_read_as_attribute :
    ¬∀ ctx ctx' : SecurityContext, Built ctx → Built ctx' →
      hashSecurityContext ctx = hashSecurityContext ctx' → SameClaims ctx ctx' := by
  intro hall
  have hmisread : Misread (exampleContext [] [("internal", .bool true)]) (exampleContext ["internal", "true"] []) := by
    refine ⟨rfl, rfl, rfl, ["internal", "true"], cons_ne_nil _ _, ?_, ?_⟩
    · have hsorted : ["internal", "true"].Pairwise fun a b : String => decide (a ≤ b) = true := by decide
      rw [show sortedTexts (exampleContext [] [("internal", .bool true)]).scopes = [] from mergeSort_nil]
      exact mergeSort_of_pairwise hsorted
    · simp [attributeTexts, sortEntries, exampleContext, Json.text]
  have hsame := hall _ _ (built_internal _) (built_exampleContext _) hmisread.sameCalls
  exact absurd hsame.attributes.length_eq (by decide)

end FraiseQL.CacheResponse
