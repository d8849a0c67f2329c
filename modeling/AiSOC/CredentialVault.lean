import AiSOC.JsonLeaves
import AiSOC.TextEncoding

/-! # The credential vault

`encrypt_dict` replaces the strings of a connector's `auth_config` by tagged tokens, string by
string, and `decrypt_dict` opens them again. A tag in the text itself tells tokens from plain
strings, so what has the tag passes the encryption. -/
namespace CredentialVault

open ByteText CodeText JsonText JsonLeaves
open TextEncoding (encodeUtf8 decodeUtf8 asciiBytes isSurrogate)

inductive VaultError where
  | credentialVault (detail : Text)
  | unicodeEncode
  | unicodeDecode

/-- A token also depends on the time and a random vector, and `none` is the `InvalidToken`. -/
structure Fernet (K N : Type) where
  encrypt : K → N → Bytes → Bytes
  decrypt : K → Bytes → Option Bytes

/-- `entropy` is what the encryptions draw. -/
structure Vault (K N : Type) where
  primary : K
  historical : List K
  entropy : ℕ → N

variable {K N F : Type} (fernet : Fernet K N)

def Vault.keyring (vault : Vault K N) : List K := vault.primary :: vault.historical

/-- The first key encrypts. -/
def Vault.sealed (vault : Vault K N) (draw : ℕ) (data : Bytes) : Bytes :=
  fernet.encrypt vault.primary (vault.entropy draw) data

/-- The keys are tried in turn. -/
def Vault.opened (vault : Vault K N) (token : Bytes) : Option Bytes :=
  vault.keyring.findSome? fun key => fernet.decrypt key token

def cipherPrefix : Text := text "vault:v1:"

def encodeAscii (t : Text) : Option Bytes :=
  if t.all fun c => c.val < 0x80 then some (asciiBytes t) else none

def decodeAscii (data : Bytes) : Option Text :=
  if data.all fun b => b.toNat < 0x80 then
    some (data.map fun b => Fin.ofNat 0x110000 b.toNat)
  else none

def typeName : Json F → Text
  | .null => text "NoneType"
  | .bool _ => text "bool"
  | .int _ => text "int"
  | .float _ => text "float"
  | .str _ => text "str"
  | .arr _ => text "list"
  | .obj _ => text "dict"

/-- The state counts the draws. -/
def Vault.encrypt (vault : Vault K N) : Json F → StateT ℕ (Except VaultError) Text
  | .str value => fun draws =>
    if cipherPrefix <+: value then .ok (value, draws)
    else
      match encodeUtf8 value with
      | none => .error .unicodeEncode
      | some data =>
        match decodeAscii (vault.sealed fernet draws data) with
        | none => .error .unicodeDecode
        | some token => .ok (cipherPrefix ++ token, draws + 1)
  | value => fun _ =>
    .error (.credentialVault (text "vault.encrypt expects str, got " ++ typeName value))

def Vault.decrypt (vault : Vault K N) : Json F → Except VaultError Text
  | .str value =>
    if cipherPrefix <+: value then
      match encodeAscii (value.drop cipherPrefix.length) with
      | none => .error .unicodeEncode
      | some token =>
        match vault.opened fernet token with
        | none => .error (.credentialVault
            (text "ciphertext failed integrity check (key rotated without re-encrypt?)"))
        | some data =>
          match decodeUtf8 data with
          | none => .error .unicodeDecode
          | some value => .ok value
    else .ok value
  | value => .error (.credentialVault (text "vault.decrypt expects str, got " ++ typeName value))

section

variable {m : Type → Type} [Monad m]

mutual

@[grind =]
def walk (op : Json F → m Text) (secretKeys : Option (List Text)) : Json F → m (Json F)
  | .obj members => Json.obj <$> walkMembers op secretKeys members
  | .arr items => Json.arr <$> walkItems op secretKeys items
  | .str s => Json.str <$> op (.str s)
  | payload => pure payload

@[grind =]
def walkItems (op : Json F → m Text) (secretKeys : Option (List Text)) :
    List (Json F) → m (List (Json F))
  | [] => pure []
  | x :: xs => do
    let y ← walk op secretKeys x
    let ys ← walkItems op secretKeys xs
    pure (y :: ys)

@[grind =]
def walkMembers (op : Json F → m Text) (secretKeys : Option (List Text)) :
    List (Text × Json F) → m (List (Text × Json F))
  | [] => pure []
  | (k, v) :: ms => do
    let w ← if (secretKeys.any fun keys => k ∉ keys) && !isContainer v then pure v
      else walk op secretKeys v
    let ns ← walkMembers op secretKeys ms
    pure ((k, w) :: ns)

end

end

def Vault.encryptDict (vault : Vault K N) (secretKeys : Option (List Text))
    (payload : List (Text × Json F)) : StateT ℕ (Except VaultError) (Json F) :=
  walk (vault.encrypt fernet) secretKeys (.obj payload)

def Vault.decryptDict (vault : Vault K N) (secretKeys : Option (List Text))
    (payload : List (Text × Json F)) : Except VaultError (Json F) :=
  walk (vault.decrypt fernet) secretKeys (.obj payload)

/-! ## What the walk does with each string -/

/-- The string is under one of the keys. -/
def selected (secretKeys : Option (List Text)) (place : Place) : Bool :=
  secretKeys.all fun keys => place.key.all fun k => k ∈ keys

/-- In a list the keys do not matter. -/
@[grind =]
def touched (secretKeys : Option (List Text)) (place : Place) : Bool :=
  !place.direct || selected secretKeys place

theorem touched_direct (secretKeys : Option (List Text)) (k : Text) :
    touched secretKeys ⟨some k, true⟩ = !secretKeys.any fun keys => k ∉ keys := by
  cases secretKeys with
  | none => rfl
  | some keys => simp only [touched, selected, Option.all_some, Option.any_some, Bool.not_true,
      Bool.false_or, decide_not, Bool.not_not]

theorem touched_of_selected {secretKeys : Option (List Text)} {place : Place}
    (h : selected secretKeys place = true) : touched secretKeys place = true := by
  rw [touched, h, Bool.or_true]

/-- A member is left alone, or else its value is no string that has to be left alone. -/
theorem skip_cases (secretKeys : Option (List Text)) (k : Text) (v : Json F) :
    ((secretKeys.any fun keys => k ∉ keys) && !isContainer v) = true ∧ isContainer v = false ∧
        touched secretKeys ⟨some k, true⟩ = false ∨
      ((secretKeys.any fun keys => k ∉ keys) && !isContainer v) = false ∧
        ∀ s, v = .str s → touched secretKeys ⟨some k, true⟩ = true := by
  rw [touched_direct]
  rcases hkeys : secretKeys.any fun keys => k ∉ keys with - | -
  · rw [hkeys]
    exact Or.inr ⟨rfl, fun _ _ => rfl⟩
  · rw [hkeys]
    rcases hv : isContainer v with - | -
    · exact Or.inl ⟨rfl, rfl, rfl⟩
    · refine Or.inr ⟨rfl, ?_⟩
      rintro s rfl
      cases hv

section

variable {m : Type → Type} [Monad m] {secretKeys : Option (List Text)}
  {op op' : Json F → m Text} {R : Place → Text → Text → Prop}

theorem isContainer_related {place : Place} {x y : Json F} (h : Related R place x y) :
    isContainer y = isContainer x := by
  cases x <;> cases y <;> first | rfl | (simp only [Related] at h)

theorem eq_of_related {place : Place} {x y : Json F} (h : Related R place x y)
    (hx : isContainer x = false) (heq : ∀ s t, R place s t → t = s) : y = x := by
  match x, y, h with
  | .str s, .str t, hst => rw [heq s t hst]
  | .null, .null, _ => rfl
  | .bool _, .bool _, hab | .int _, .int _, hab | .float _, .float _, hab => rw [hab]

mutual

/-- Walks that do the same with the strings at each place do the same. -/
theorem walk_congr
    (htouched : ∀ place s t, R place s t → touched secretKeys place = true →
      op (.str t) = op' (.str s))
    (hskipped : ∀ place s t, R place s t → touched secretKeys place = false → t = s)
    {place : Place} {x y : Json F} (hxy : Related R place x y)
    (hplace : ∀ s, x = .str s → touched secretKeys place = true) :
    walk op secretKeys y = walk op' secretKeys x := by
  match x, y, hxy with
  | .str s, .str t, hst => rw [walk, walk, htouched place s t hst (hplace s rfl)]
  | .arr xs, .arr ys, hxs =>
    rw [walk, walk, walkItems_congr htouched hskipped hxs rfl]
  | .obj ms, .obj ns, hms => rw [walk, walk, walkMembers_congr htouched hskipped hms]
  | .null, .null, _ => rfl
  | .bool _, .bool _, hab | .int _, .int _, hab | .float _, .float _, hab =>
    rw [hab]
    rfl

theorem walkItems_congr
    (htouched : ∀ place s t, R place s t → touched secretKeys place = true →
      op (.str t) = op' (.str s))
    (hskipped : ∀ place s t, R place s t → touched secretKeys place = false → t = s)
    {place : Place} {xs ys : List (Json F)} (hxs : RelatedItems R place xs ys)
    (hplace : place.direct = false) :
    walkItems op secretKeys ys = walkItems op' secretKeys xs := by
  match xs, ys, hxs with
  | [], [], _ => rfl
  | x :: xs, y :: ys, ⟨hx, hxs⟩ =>
    have htouch : touched secretKeys place = true := by
      rw [touched, hplace]
      rfl
    rw [walkItems, walkItems, walk_congr htouched hskipped hx fun _ _ => htouch,
      walkItems_congr htouched hskipped hxs hplace]

theorem walkMembers_congr
    (htouched : ∀ place s t, R place s t → touched secretKeys place = true →
      op (.str t) = op' (.str s))
    (hskipped : ∀ place s t, R place s t → touched secretKeys place = false → t = s)
    {ms ns : List (Text × Json F)} (hms : RelatedMembers R ms ns) :
    walkMembers op secretKeys ns = walkMembers op' secretKeys ms := by
  match ms, ns, hms with
  | [], [], _ => rfl
  | (k, x) :: ms, (_, y) :: ns, ⟨rfl, hx, hms⟩ =>
    rw [walkMembers, walkMembers, walkMembers_congr htouched hskipped hms,
      isContainer_related hx]
    rcases skip_cases secretKeys k x with ⟨hskip, hcontainer, htouch⟩ | ⟨hskip, htouch⟩
    · have heq := eq_of_related hx hcontainer fun s t hst => hskipped _ s t hst htouch
      rw [hskip, heq, if_pos rfl, if_pos rfl]
    · rw [hskip, if_neg Bool.false_ne_true, if_neg Bool.false_ne_true,
        walk_congr htouched hskipped hx htouch]

end

variable [LawfulMonad m]

mutual

/-- Nothing changes where each string that is touched stays. -/
theorem walk_pure {place : Place} {x : Json F}
    (hx : All (fun place s => touched secretKeys place = true → op (.str s) = pure s) place x)
    (hplace : ∀ s, x = .str s → touched secretKeys place = true) :
    walk op secretKeys x = pure x := by
  match x, hx with
  | .str s, hs => rw [walk, hs (hplace s rfl), map_pure]
  | .arr xs, hxs => rw [walk, walkItems_pure hxs rfl, map_pure]
  | .obj ms, hms => rw [walk, walkMembers_pure hms, map_pure]
  | .null, _ | .bool _, _ | .int _, _ | .float _, _ => rfl

theorem walkItems_pure {place : Place} {xs : List (Json F)}
    (hxs : AllItems (fun place s => touched secretKeys place = true → op (.str s) = pure s)
      place xs) (hplace : place.direct = false) :
    walkItems op secretKeys xs = pure xs := by
  match xs, hxs with
  | [], _ => rfl
  | x :: xs, ⟨hx, hxs⟩ =>
    have htouch : touched secretKeys place = true := by
      rw [touched, hplace]
      rfl
    rw [walkItems, walk_pure hx fun _ _ => htouch, walkItems_pure hxs hplace, pure_bind,
      pure_bind]

theorem walkMembers_pure {ms : List (Text × Json F)}
    (hms : AllMembers (fun place s => touched secretKeys place = true → op (.str s) = pure s)
      ms) : walkMembers op secretKeys ms = pure ms := by
  match ms, hms with
  | [], _ => rfl
  | (k, x) :: ms, ⟨hx, hms⟩ =>
    rw [walkMembers, walkMembers_pure hms]
    rcases skip_cases secretKeys k x with ⟨hskip, -, -⟩ | ⟨hskip, htouch⟩
    · rw [hskip, if_pos rfl, pure_bind]
      exact pure_bind _ _
    · rw [hskip, if_neg Bool.false_ne_true, walk_pure hx htouch, pure_bind]
      exact pure_bind _ _

end

end

/-- What fails is an operation on a string. -/
def FailsWith (good : VaultError → Prop) {α : Type} (r : Except VaultError α) : Prop :=
  ∀ e, r = .error e → good e

variable {good : VaultError → Prop} {secretKeys : Option (List Text)}

theorem failsWith_bind {α β : Type} {r : Except VaultError α} {f : α → Except VaultError β}
    (hr : FailsWith good r) (hf : ∀ x, FailsWith good (f x)) : FailsWith good (r >>= f) := by
  intro e he
  rcases r with e' | x
  · obtain rfl := Except.error.inj he
    exact hr e' rfl
  · exact hf x e he

theorem failsWith_pure {α : Type} (x : α) : FailsWith good (pure x) := nofun

theorem failsWith_map {α β : Type} {r : Except VaultError α} {f : α → β}
    (hr : FailsWith good r) : FailsWith good (f <$> r) := by
  intro e he
  rcases r with e' | x
  · obtain rfl := Except.error.inj he
    exact hr e' rfl
  · cases he

mutual

theorem walk_failsWith {op : Json F → Except VaultError Text} {place : Place} {x : Json F}
    (hx : All (fun place s => touched secretKeys place = true → FailsWith good (op (.str s)))
      place x) (hplace : ∀ s, x = .str s → touched secretKeys place = true) :
    FailsWith good (walk op secretKeys x) := by
  match x, hx with
  | .str s, hs => exact failsWith_map (hs (hplace s rfl))
  | .arr xs, hxs => exact failsWith_map (walkItems_failsWith hxs rfl)
  | .obj ms, hms => exact failsWith_map (walkMembers_failsWith hms)
  | .null, _ | .bool _, _ | .int _, _ | .float _, _ => exact failsWith_pure _

theorem walkItems_failsWith {op : Json F → Except VaultError Text} {place : Place}
    {xs : List (Json F)}
    (hxs : AllItems (fun place s => touched secretKeys place = true →
      FailsWith good (op (.str s))) place xs) (hplace : place.direct = false) :
    FailsWith good (walkItems op secretKeys xs) := by
  match xs, hxs with
  | [], _ => exact failsWith_pure _
  | x :: xs, ⟨hx, hxs⟩ =>
    have htouch : touched secretKeys place = true := by
      rw [touched, hplace]
      rfl
    apply failsWith_bind (walk_failsWith hx fun _ _ => htouch)
    intro y
    exact failsWith_bind (walkItems_failsWith hxs hplace) fun ys => failsWith_pure _

theorem walkMembers_failsWith {op : Json F → Except VaultError Text} {ms : List (Text × Json F)}
    (hms : AllMembers (fun place s => touched secretKeys place = true →
      FailsWith good (op (.str s))) ms) : FailsWith good (walkMembers op secretKeys ms) := by
  match ms, hms with
  | [], _ => exact failsWith_pure _
  | (k, x) :: ms, ⟨hx, hms⟩ =>
    have hrest := walkMembers_failsWith hms
    rw [walkMembers]
    rcases skip_cases secretKeys k x with ⟨hskip, -, -⟩ | ⟨hskip, htouch⟩
    · rw [hskip, if_pos rfl]
      exact failsWith_bind (failsWith_pure x) fun _ =>
        failsWith_bind hrest fun _ => failsWith_pure _
    · rw [hskip, if_neg Bool.false_ne_true]
      exact failsWith_bind (walk_failsWith hx htouch) fun _ =>
        failsWith_bind hrest fun _ => failsWith_pure _

end

/-! ## Sealing and opening -/

/-- The cipher is correct for a ring: its keys together open what one of them has sealed. Tokens
are base64. -/
structure Correct (keys : List K) : Prop where
  opens : ∀ key ∈ keys, ∀ nonce data,
    keys.findSome? (fun key' => fernet.decrypt key' (fernet.encrypt key nonce data)) = some data
  ascii : ∀ key ∈ keys, ∀ nonce data, ∀ b ∈ fernet.encrypt key nonce data, b.toNat < 0x80

/-- A token of the vault's own. -/
def Vault.Token (vault : Vault K N) (s t : Text) : Prop :=
  ∃ draw data token, encodeUtf8 s = some data ∧
    decodeAscii (vault.sealed fernet draw data) = some token ∧ t = cipherPrefix ++ token

/-- What has the tag counts as sealed. -/
def Vault.Sealed (vault : Vault K N) (s t : Text) : Prop :=
  if cipherPrefix <+: s then t = s else vault.Token fernet s t

variable {fernet} {writer reader : Vault K N} {place : Place} {s t : Text}

theorem encodeAscii_decodeAscii {data : Bytes} (h : decodeAscii data = some t) :
    encodeAscii t = some data := by
  rw [decodeAscii] at h
  split_ifs at h with hascii
  obtain rfl := Option.some.inj h
  have hval : ∀ b ∈ data, (Fin.ofNat 0x110000 b.toNat : CodePoint).val = b.toNat := by
    intro b hb
    have hlt := of_decide_eq_true (List.all_eq_true.mp hascii b hb)
    exact Nat.mod_eq_of_lt (by omega)
  rw [encodeAscii, if_pos]
  · rw [asciiBytes, List.map_map]
    congr 1
    rw [List.map_congr_left (g := id), List.map_id]
    intro b hb
    rw [Function.comp_apply, hval b hb, UInt8.ofNat_toNat, id]
  · rw [List.all_eq_true]
    intro c hc
    obtain ⟨b, hb, rfl⟩ := List.mem_map.mp hc
    rw [hval b hb]
    exact List.all_eq_true.mp hascii b hb

/-- Encryption fails for what has no encoding only. -/
theorem encrypt_sealed (hcorrect : Correct fernet reader.keyring)
    (hkey : writer.primary ∈ reader.keyring) (hs : s.any isSurrogate = false) (draws : ℕ) :
    ∃ t draws', writer.encrypt fernet (.str s : Json F) draws = .ok (t, draws') ∧
      writer.Sealed fernet s t := by
  by_cases htag : cipherPrefix <+: s
  · exact ⟨s, draws, if_pos htag, by rw [Vault.Sealed, if_pos htag]⟩
  · have hencode : (encodeUtf8 s).isSome := by
      rw [TextEncoding.encodeUtf8_isSome, hs]
      rfl
    obtain ⟨data, hdata⟩ := Option.isSome_iff_exists.mp hencode
    have hascii := hcorrect.ascii writer.primary hkey (writer.entropy draws) data
    obtain ⟨token, htoken⟩ : ∃ token, decodeAscii (writer.sealed fernet draws data) =
        some token :=
      ⟨_, if_pos (List.all_eq_true.mpr fun b hb => decide_eq_true (hascii b hb))⟩
    refine ⟨cipherPrefix ++ token, draws + 1, ?_, ?_⟩
    · rw [Vault.encrypt]
      dsimp only
      rw [if_neg htag, hdata]
      dsimp only
      rw [htoken]
    · rw [Vault.Sealed, if_neg htag]
      exact ⟨draws, data, token, hdata, htoken, rfl⟩

/-- What is sealed has the tag. -/
theorem prefix_of_sealed (h : writer.Sealed fernet s t) : cipherPrefix <+: t := by
  rw [Vault.Sealed] at h
  split_ifs at h with htag
  · rw [h]
    exact htag
  · obtain ⟨draw, data, token, -, -, rfl⟩ := h
    exact List.prefix_append _ _

theorem encrypt_of_prefix (h : cipherPrefix <+: t) :
    writer.encrypt fernet (.str t : Json F) = pure t := by
  funext draws
  exact if_pos h

theorem decrypt_of_untagged (h : ¬ cipherPrefix <+: s) :
    reader.decrypt fernet (.str s : Json F) = .ok s := by
  rw [Vault.decrypt, if_neg h]

/-- Sealing changes nothing for who opens. -/
theorem decrypt_sealed (hcorrect : Correct fernet reader.keyring)
    (hkey : writer.primary ∈ reader.keyring) (h : writer.Sealed fernet s t) :
    reader.decrypt fernet (.str t : Json F) = reader.decrypt fernet (.str s : Json F) := by
  rw [Vault.Sealed] at h
  split_ifs at h with htag
  · rw [h]
  · obtain ⟨draw, data, token, hdata, htoken, rfl⟩ := h
    have hopened : reader.opened fernet (writer.sealed fernet draw data) = some data :=
      hcorrect.opens writer.primary hkey (writer.entropy draw) data
    rw [decrypt_of_untagged htag, Vault.decrypt, if_pos (List.prefix_append _ _),
      List.drop_left, encodeAscii_decodeAscii htoken]
    dsimp only
    rw [hopened]
    dsimp only
    rw [TextEncoding.decodeUtf8_encodeUtf8 hdata]

/-! ## Whole payloads -/

theorem related_self {R : Place → Text → Text → Prop} {place : Place} {x : Json F}
    (hx : isContainer x = false)
    (hR : ∀ s, x = .str s → R place s s) : Related R place x x := by
  match x, hx with
  | .str s, _ => exact hR s rfl
  | .null, _ => trivial
  | .bool _, _ | .int _, _ | .float _, _ => exact rfl

/-- The strings that are touched are sealed, and the others stay. -/
def Vault.SealedAt (fernet : Fernet K N) (vault : Vault K N) (secretKeys : Option (List Text))
    (place : Place) (s t : Text) : Prop :=
  if touched secretKeys place = true then vault.Sealed fernet s t else t = s

theorem bind_ok {σ ε α β : Type} {x : StateT σ (Except ε) α} {f : α → StateT σ (Except ε) β}
    {a : α} {u v : σ} (h : x u = .ok (a, v)) : (x >>= f) u = f a v := by
  change (x u).bind (fun p => f p.1 p.2) = f a v
  rw [h]
  rfl

theorem map_ok {σ ε α β : Type} {x : StateT σ (Except ε) α} {f : α → β} {a : α} {u v : σ}
    (h : x u = .ok (a, v)) : (f <$> x) u = .ok (f a, v) := by
  change (x u).bind (fun p => .ok (f p.1, p.2)) = _
  rw [h]
  rfl

mutual

theorem walk_sealed (hcorrect : Correct fernet reader.keyring)
    (hkey : writer.primary ∈ reader.keyring) {place : Place} {x : Json F}
    (hx : All (fun place s => touched secretKeys place = true → s.any isSurrogate = false)
      place x) (hplace : ∀ s, x = .str s → touched secretKeys place = true) (draws : ℕ) :
    ∃ y draws', walk (writer.encrypt fernet) secretKeys x draws = .ok (y, draws') ∧
      Related (writer.SealedAt fernet secretKeys) place x y := by
  match x, hx with
  | .str s, hs =>
    obtain ⟨t, draws', ht, hsealed⟩ :=
      encrypt_sealed (F := F) hcorrect hkey (hs (hplace s rfl)) draws
    refine ⟨.str t, draws', map_ok ht, ?_⟩
    rw [Related, Vault.SealedAt, if_pos (hplace s rfl)]
    exact hsealed
  | .arr xs, hxs =>
    obtain ⟨ys, draws', hys, hrelated⟩ := walkItems_sealed hcorrect hkey hxs rfl draws
    exact ⟨.arr ys, draws', map_ok hys, hrelated⟩
  | .obj ms, hms =>
    obtain ⟨ns, draws', hns, hrelated⟩ := walkMembers_sealed hcorrect hkey hms draws
    exact ⟨.obj ns, draws', map_ok hns, hrelated⟩
  | .null, _ => exact ⟨.null, draws, rfl, trivial⟩
  | .bool b, _ => exact ⟨.bool b, draws, rfl, rfl⟩
  | .int n, _ => exact ⟨.int n, draws, rfl, rfl⟩
  | .float a, _ => exact ⟨.float a, draws, rfl, rfl⟩

theorem walkItems_sealed (hcorrect : Correct fernet reader.keyring)
    (hkey : writer.primary ∈ reader.keyring) {place : Place} {xs : List (Json F)}
    (hxs : AllItems (fun place s => touched secretKeys place = true → s.any isSurrogate = false)
      place xs) (hplace : place.direct = false) (draws : ℕ) :
    ∃ ys draws', walkItems (writer.encrypt fernet) secretKeys xs draws = .ok (ys, draws') ∧
      RelatedItems (writer.SealedAt fernet secretKeys) place xs ys := by
  match xs, hxs with
  | [], _ => exact ⟨[], draws, rfl, trivial⟩
  | x :: xs, ⟨hx, hxs⟩ =>
    have htouch : touched secretKeys place = true := by
      rw [touched, hplace]
      rfl
    obtain ⟨y, draws₁, hy, hrelated⟩ := walk_sealed hcorrect hkey hx (fun _ _ => htouch) draws
    obtain ⟨ys, draws₂, hys, hrest⟩ := walkItems_sealed hcorrect hkey hxs hplace draws₁
    refine ⟨y :: ys, draws₂, ?_, hrelated, hrest⟩
    rw [walkItems, bind_ok hy, bind_ok hys]
    rfl

theorem walkMembers_sealed (hcorrect : Correct fernet reader.keyring)
    (hkey : writer.primary ∈ reader.keyring) {ms : List (Text × Json F)}
    (hms : AllMembers (fun place s => touched secretKeys place = true →
      s.any isSurrogate = false) ms) (draws : ℕ) :
    ∃ ns draws', walkMembers (writer.encrypt fernet) secretKeys ms draws = .ok (ns, draws') ∧
      RelatedMembers (writer.SealedAt fernet secretKeys) ms ns := by
  match ms, hms with
  | [], _ => exact ⟨[], draws, rfl, trivial⟩
  | (k, x) :: ms, ⟨hx, hms⟩ =>
    rw [walkMembers]
    rcases skip_cases secretKeys k x with ⟨hskip, hcontainer, htouch⟩ | ⟨hskip, htouch⟩
    · obtain ⟨ns, draws', hns, hrest⟩ := walkMembers_sealed hcorrect hkey hms draws
      refine ⟨(k, x) :: ns, draws', ?_, rfl, related_self hcontainer fun s _ => ?_, hrest⟩
      · rw [hskip, if_pos rfl, pure_bind]
        exact bind_ok hns
      · rw [Vault.SealedAt, htouch, if_neg Bool.false_ne_true]
    · obtain ⟨y, draws₁, hy, hrelated⟩ := walk_sealed hcorrect hkey hx htouch draws
      obtain ⟨ns, draws₂, hns, hrest⟩ := walkMembers_sealed hcorrect hkey hms draws₁
      refine ⟨(k, y) :: ns, draws₂, ?_, rfl, hrelated, hrest⟩
      rw [hskip, if_neg Bool.false_ne_true, bind_ok hy]
      exact bind_ok hns

end

/-- The strings under the keys are sealed, and values of other keys stay. Lists of strings under
other keys are left open. -/
def Vault.EncryptedAt (fernet : Fernet K N) (vault : Vault K N)
    (secretKeys : Option (List Text)) (place : Place) (s t : Text) : Prop :=
  if selected secretKeys place = true then vault.Sealed fernet s t
  else place.direct = true → t = s

/-- After the tag come ASCII characters, and no token opens to bytes that are no text. -/
def Vault.Legible (fernet : Fernet K N) (vault : Vault K N) (s : Text) : Prop :=
  cipherPrefix <+: s → ∃ token, encodeAscii (s.drop cipherPrefix.length) = some token ∧
    ∀ data, vault.opened fernet token = some data → (decodeUtf8 data).isSome

theorem decrypt_failsWith (h : reader.Legible fernet s) :
    FailsWith (fun e => ∃ detail, e = .credentialVault detail)
      (reader.decrypt fernet (.str s : Json F)) := by
  intro e he
  rw [Vault.decrypt] at he
  split_ifs at he with htag
  · obtain ⟨token, htoken, hopen⟩ := h htag
    rw [htoken] at he
    dsimp only at he
    rcases hdata : reader.opened fernet token with - | data
    · rw [hdata] at he
      exact ⟨_, (Except.error.inj he).symm⟩
    · obtain ⟨value, hvalue⟩ := Option.isSome_iff_exists.mp (hopen data hdata)
      rw [hdata] at he
      dsimp only at he
      rw [hvalue] at he
      cases he

theorem sealed_payload_opens (fernet : Fernet K N) (writer reader : Vault K N)
    (hcorrect : Correct fernet reader.keyring) (hkey : writer.primary ∈ reader.keyring)
    (secretKeys : Option (List Text)) :
    (∀ (payload : List (Text × Json F)) (draws : ℕ),
      AllMembers (fun place s => touched secretKeys place = true → s.any isSurrogate = false)
        payload →
      ∃ encrypted draws', writer.encryptDict fernet secretKeys payload draws =
          .ok (.obj encrypted, draws') ∧
        RelatedMembers (writer.EncryptedAt fernet secretKeys) payload encrypted ∧
        (∀ again, writer.encryptDict fernet secretKeys encrypted again =
          .ok (.obj encrypted, again)) ∧
        reader.decryptDict fernet secretKeys encrypted =
          reader.decryptDict fernet secretKeys payload ∧
        (AllMembers (fun _ s => ¬ cipherPrefix <+: s) payload →
          reader.decryptDict fernet secretKeys encrypted = .ok (.obj payload))) ∧
      ∀ (payload : List (Text × Json F)) (e : VaultError),
        AllMembers (fun _ s => reader.Legible fernet s) payload →
        reader.decryptDict fernet secretKeys payload = .error e →
          ∃ detail, e = .credentialVault detail := by
  constructor
  · intro payload draws htext
    obtain ⟨encrypted, draws', hwalk, hrelated⟩ :=
      walkMembers_sealed hcorrect hkey htext draws
    have hopens : reader.decryptDict fernet secretKeys encrypted =
        reader.decryptDict fernet secretKeys payload := by
      rw [Vault.decryptDict, Vault.decryptDict, walk, walk]
      congr 1
      refine walkMembers_congr ?_ ?_ hrelated
      · intro place s t hst htouch
        rw [Vault.SealedAt, if_pos htouch] at hst
        exact decrypt_sealed hcorrect hkey hst
      · intro place s t hst htouch
        rwa [Vault.SealedAt, htouch, if_neg Bool.false_ne_true] at hst
    refine ⟨encrypted, draws', map_ok hwalk, hrelated.mono ?_, ?_, hopens, ?_⟩
    · intro place s t hst
      rw [Vault.SealedAt] at hst
      rw [Vault.EncryptedAt]
      split_ifs with hselected
      · rwa [if_pos (touched_of_selected hselected)] at hst
      · intro hdirect
        rw [touched, hdirect] at hst
        exact (if_neg hselected).mp hst
    · intro again
      have hstays : AllMembers (fun place t => touched secretKeys place = true →
          writer.encrypt fernet (.str t : Json F) = pure t) encrypted := by
        refine hrelated.all ?_
        intro place s t hst htouch
        rw [Vault.SealedAt, if_pos htouch] at hst
        exact encrypt_of_prefix (prefix_of_sealed hst)
      rw [Vault.encryptDict, walk, walkMembers_pure hstays, map_pure]
      rfl
    · intro huntagged
      have hstays : AllMembers (fun place s => touched secretKeys place = true →
          reader.decrypt fernet (.str s : Json F) = pure s) payload :=
        huntagged.mono fun place s hs _ => decrypt_of_untagged hs
      rw [hopens, Vault.decryptDict, walk, walkMembers_pure hstays, map_pure]
      rfl
  · intro payload e hlegible he
    have hfails : FailsWith (fun e => ∃ detail, e = .credentialVault detail)
        (reader.decryptDict fernet secretKeys payload) :=
      failsWith_map (walkMembers_failsWith (hlegible.mono fun _ _ hs _ => decrypt_failsWith hs))
    exact hfails e he

/-! ## A vault over base 16 -/

/-- Two letters for each byte. -/
def letters (data : Bytes) : Bytes :=
  data.flatMap fun b => [UInt8.ofNat (65 + b.toNat / 16), UInt8.ofNat (65 + b.toNat % 16)]

def unletters : Bytes → Option Bytes
  | [] => some []
  | a :: b :: rest =>
    (unletters rest).map (UInt8.ofNat ((a.toNat - 65) * 16 + (b.toNat - 65)) :: ·)
  | [_] => none

def base16 : Fernet Bool Unit where
  encrypt key _ data := (if key then 75 else 76) :: letters data
  decrypt key token :=
    match token with
    | [] => none
    | b :: rest => if b = if key then 75 else 76 then unletters rest else none

theorem toNat_letter {n : ℕ} (h : n < 16) : (UInt8.ofNat (65 + n)).toNat = 65 + n := by
  rw [UInt8.toNat_ofNat']
  omega

theorem unletters_letters (data : Bytes) : unletters (letters data) = some data := by
  induction data with
  | nil => rfl
  | cons b data ih =>
    have hb := b.toNat_lt
    have hcons : letters (b :: data) = UInt8.ofNat (65 + b.toNat / 16) ::
        UInt8.ofNat (65 + b.toNat % 16) :: letters data := rfl
    rw [hcons, unletters, ih, Option.map_some, toNat_letter (by omega), toNat_letter (by omega),
      Nat.add_sub_cancel_left, Nat.add_sub_cancel_left, Nat.div_add_mod', UInt8.ofNat_toNat]

theorem correct_base16 (keys : List Bool) : Correct base16 keys := by
  constructor
  · intro key hkey nonce data
    have hopen : ∀ key', base16.decrypt key' (base16.encrypt key nonce data) =
        if key = key' then some data else none := by
      intro key'
      cases key <;> cases key' <;> simp [base16, unletters_letters]
    induction keys with
    | nil => cases hkey
    | cons key' keys ih =>
      rw [List.findSome?_cons, hopen]
      by_cases heq : key = key'
      · rw [if_pos heq]
      · rw [if_neg heq]
        exact ih ((List.mem_cons.mp hkey).resolve_left heq)
  · intro key _ nonce data b hb
    rcases List.mem_cons.mp hb with rfl | hb
    · cases key <;> decide
    · obtain ⟨c, -, hb⟩ := List.mem_flatMap.mp hb
      have hc := c.toNat_lt
      rcases List.mem_cons.mp hb with rfl | hb
      · rw [toNat_letter (by omega)]
        omega
      · rw [List.mem_singleton.mp hb, toNat_letter (by omega)]
        omega

/-- The writer has moved to a new key, and the reader knows both. -/
def oldVault : Vault Bool Unit := ⟨false, [], fun _ => ()⟩
def newVault : Vault Bool Unit := ⟨true, [false], fun _ => ()⟩

def account : List (Text × Json Unit) :=
  [(text "client_id", .str (text "id")), (text "keys", .obj [(text "secret", .str (text "k"))])]

theorem account_opens : ∃ encrypted draws',
    oldVault.encryptDict base16 none account 0 = .ok (.obj encrypted, draws') ∧
      newVault.decryptDict base16 none encrypted = .ok (.obj account) := by
  have htext : AllMembers (fun place s => touched none place = true → s.any isSurrogate = false)
      account := by
    exact ⟨fun _ => by decide, ⟨fun _ => by decide, trivial⟩, trivial⟩
  have huntagged : AllMembers (fun _ s => ¬ cipherPrefix <+: s) account := by
    have hid : ¬ cipherPrefix <+: text "id" := by decide
    have hk : ¬ cipherPrefix <+: text "k" := by decide
    exact ⟨hid, ⟨hk, trivial⟩, trivial⟩
  obtain ⟨encrypted, draws', hencrypted, -, -, -, hopens⟩ :=
    (sealed_payload_opens base16 oldVault newVault (correct_base16 _)
      (by decide) none).1 account 0 htext
  exact ⟨encrypted, draws', hencrypted, hopens huntagged⟩

/-- What the vault has made of `k`, and a plain text with the tag. -/
def tagged : List (Text × Json Unit) := [(text "api_key", .str (text "vault:v1:LGL"))]
def lookalike : List (Text × Json Unit) := [(text "api_key", .str (text "vault:v1:hunter2"))]

theorem decrypt_own :
    oldVault.decrypt base16 (.str (text "vault:v1:LGL") : Json Unit) = .ok (text "k") := by
  have htoken : encodeAscii ((text "vault:v1:LGL").drop cipherPrefix.length) =
      some [76, 71, 76] := by decide
  have hopened : oldVault.opened base16 [76, 71, 76] = some [0x6b] := by decide
  have hdecoded : decodeUtf8 [0x6b] = some (text "k") := by decide
  have htag : cipherPrefix <+: text "vault:v1:LGL" := by decide
  rw [Vault.decrypt, if_pos htag, htoken]
  dsimp only
  rw [hopened]
  dsimp only
  rw [hdecoded]

theorem decrypt_lookalike :
    ∃ e, oldVault.decrypt base16 (.str (text "vault:v1:hunter2") : Json Unit) = .error e := by
  have htag : cipherPrefix <+: text "vault:v1:hunter2" := by decide
  obtain ⟨token, htoken, hopened⟩ : ∃ token,
      encodeAscii ((text "vault:v1:hunter2").drop cipherPrefix.length) = some token ∧
        oldVault.opened base16 token = none := ⟨asciiBytes (text "hunter2"), by decide, by decide⟩
  rw [Vault.decrypt, if_pos htag, htoken]
  dsimp only
  rw [hopened]
  exact ⟨_, rfl⟩

theorem tagged_passes :
    (oldVault.encryptDict base16 none tagged 0 = .ok (.obj tagged, 0) ∧
      oldVault.decryptDict base16 none tagged =
        .ok (.obj [(text "api_key", .str (text "k"))]) ∧
      Json.obj tagged ≠ .obj [(text "api_key", .str (text "k"))]) ∧
    oldVault.encryptDict base16 none lookalike 0 = .ok (.obj lookalike, 0) ∧
      ∃ e, oldVault.decryptDict base16 none lookalike = .error e := by
  have hopens : oldVault.decryptDict base16 none tagged =
      .ok (.obj [(text "api_key", .str (text "k"))]) := by
    change Json.obj <$> ((Json.str <$> oldVault.decrypt base16 _ >>= _) : Except VaultError _) = _
    rw [decrypt_own]
    rfl
  have hlookalike : ∃ e, oldVault.decryptDict base16 none lookalike = .error e := by
    obtain ⟨e, he⟩ := decrypt_lookalike
    change ∃ e, Json.obj <$>
      ((Json.str <$> oldVault.decrypt base16 _ >>= _) : Except VaultError _) = _
    rw [he]
    exact ⟨e, rfl⟩
  refine ⟨⟨rfl, hopens, ?_⟩, rfl, hlookalike⟩
  intro h
  have hstr := (Prod.mk.inj (List.cons.inj (Json.obj.inj h)).1).2
  exact absurd (Json.str.inj hstr) (by decide)

end CredentialVault
