/-
  The body of the Lobby registration: server/c/src/lobby.c (json_esc, render_json,
  copy_ascii, lobby_start, lobby_update) beside LobbyPublisher's payload and json.dumps.

  A C string is its bytes up to the NUL. parse_url fills only host, port and path, which
  no body shows; whether it and the start of the worker succeed is the argument `up` of
  `lobbyStart`.

  The two agree unless a string contains $7F, which json.dumps escapes and json_esc does
  not, or the body is longer than the worker's buffer.
-/
import Mathlib.Algebra.Order.Ring.Nat
import Mathlib.Algebra.BigOperators.Group.List.Basic
import IntvBasketball.Relay.Server

namespace IntvBasketball.Relay

/-- The bytes of a literal. -/
@[irreducible] def txt (s : String) : List Byte := s.toList.map (fun ch => UInt8.ofNat ch.toNat)

/-- A digit of `%x`, lower case. -/
def hexDigit (n : Nat) : Byte := if n < 10 then UInt8.ofNat (48 + n) else UInt8.ofNat (87 + n)

/-- `%04x` of a 16-bit value. -/
def hex4 (n : Nat) : List Byte :=
  [hexDigit (n / 4096 % 16), hexDigit (n / 256 % 16), hexDigit (n / 16 % 16), hexDigit (n % 16)]

/-- `%d` in C, the repr of an int in Python. -/
def decimal (n : Int) : List Byte :=
  (if n < 0 then [45] else []) ++
    (Nat.toDigits 10 n.natAbs).map (fun ch => UInt8.ofNat ch.toNat)

/-! ## lobby.c -/

def strMax : Nat := 256
def regionMax : Nat := 64
def jsonMax : Nat := 4096

/-- A C string. -/
structure CStr where
  bytes : List Byte
  nonzero : (0 : Byte) ∉ bytes

/-- A char array of `sz` that copy_ascii filled. -/
structure Ascii (sz : Nat) where
  bytes : List Byte
  nonzero : (0 : Byte) ∉ bytes
  low : ∀ b ∈ bytes, b ≤ 0x7F
  fits : bytes.length < sz

/-- copy_ascii: the string must fit with its NUL and be ASCII. -/
def copyAscii (sz : Nat) (src : CStr) : Option (Ascii sz) :=
  if h : sz ≤ src.bytes.length then none
  else if h' : ∃ b ∈ src.bytes, 0x7F < b then none
  else some ⟨src.bytes, src.nonzero, fun b hb => UInt8.not_lt.mp (fun hlt => h' ⟨b, hb, hlt⟩),
    Nat.lt_of_not_le h⟩

/-- `struct lobby`, as far as the body shows it. -/
structure Lobby where
  game : Ascii strMax
  server : Ascii strMax
  region : Ascii regionMax
  serverurl : Ascii strMax
  clientUrl : Ascii strMax
  appkey : Int
  maxplayers : Int
  curplayers : Int
  offline : Bool

/-- The arguments of lobby_start that reach the body. -/
structure LobbyArgs where
  serverurl : CStr
  clientUrl : CStr
  appkey : Int
  region : CStr
  gameName : CStr
  serverName : CStr
  maxplayers : Int

def lobbyStart (up : Bool) (a : LobbyArgs) : Option Lobby := do
  if !up then none
  let serverurl ← copyAscii strMax a.serverurl
  let clientUrl ← copyAscii strMax a.clientUrl
  let game ← copyAscii strMax a.gameName
  let server ← copyAscii strMax a.serverName
  let region ← copyAscii regionMax a.region
  return { game, server, region, serverurl, clientUrl
           appkey := a.appkey, maxplayers := a.maxplayers, curplayers := 0, offline := false }

/-- lobby_update and lobby_shutdown, as far as the body shows them. -/
def Lobby.update (l : Lobby) (curplayers : Int) (offline : Bool) : Lobby :=
  { l with curplayers, offline }

/-- The switch of json_esc: what replaces `p`. -/
def escByte (p : Byte) : List Byte :=
  if p = 34 then [92, 34]
  else if p = 92 then [92, 92]
  else if p = 8 then [92, 98]
  else if p = 12 then [92, 102]
  else if p = 10 then [92, 110]
  else if p = 13 then [92, 114]
  else if p = 9 then [92, 116]
  else if p < 0x20 then [92, 117] ++ hex4 p.toNat
  else [p]

/-- The loop of json_esc; `dst` is what has been written. -/
def jsonEscLoop (sz : Nat) : List Byte → List Byte → Option (List Byte)
  | [], dst => if sz ≤ dst.length then none else some dst
  | p :: src, dst =>
    if sz ≤ dst.length + (escByte p).length then none else jsonEscLoop sz src (dst ++ escByte p)

def jsonEsc (src : List Byte) (sz : Nat) : Option (List Byte) := jsonEscLoop sz src []

/-- snprintf of a format's pieces, and the test of its result. -/
def snprintf (sz : Nat) (out : List (List Byte)) : Option (List Byte) :=
  if sz ≤ out.flatten.length then none else some out.flatten

def renderJson (l : Lobby) (sz : Nat) : Option (List Byte) := do
  let g ← jsonEsc l.game.bytes (strMax * 6)
  let s ← jsonEsc l.server.bytes (strMax * 6)
  let r ← jsonEsc l.region.bytes (64 * 6)
  let su ← jsonEsc l.serverurl.bytes (strMax * 6)
  let cu ← jsonEsc l.clientUrl.bytes (strMax * 6)
  snprintf sz [
    txt "\x7b\"game\": \"", g, txt "\", \"appkey\": ", decimal l.appkey, txt ", \"server\": \"", s,
    txt "\", \"region\": \"", r, txt "\", \"serverurl\": \"", su, txt "\", \"status\": \"",
    if l.offline then txt "offline" else txt "online",
    txt "\", \"maxplayers\": ", decimal l.maxplayers, txt ", \"curplayers\": ", decimal l.curplayers,
    txt ", \"clients\": [\x7b\"platform\": \"intv\", \"url\": \"", cu, txt "\"\x7d]\x7d"]

/-! ## LobbyPublisher -/

/-- The values of the payload dict. -/
inductive Json where
  | str (s : Str)
  | int (n : Int)
  | list (vs : List Json)
  | dict (kvs : List (Str × Json))

/-- ESCAPE_ASCII.sub of a character below U+10000. -/
def escChar (ch : Nat) : List Byte :=
  if ch = 92 then [92, 92]
  else if ch = 34 then [92, 34]
  else if ch = 8 then [92, 98]
  else if ch = 12 then [92, 102]
  else if ch = 10 then [92, 110]
  else if ch = 13 then [92, 114]
  else if ch = 9 then [92, 116]
  else if 32 ≤ ch ∧ ch ≤ 126 then [UInt8.ofNat ch]
  else [92, 117] ++ hex4 ch

/-- A string literal of json.dumps. -/
def dumpsStr (s : Str) : List Byte := [34] ++ (s.map escChar).flatten ++ [34]

mutual

/-- json.dumps with its default separators. -/
def dumps : Json → List Byte
  | .str s => dumpsStr s
  | .int n => decimal n
  | .list vs => [91] ++ dumpsList vs ++ [93]
  | .dict kvs => [123] ++ dumpsDict kvs ++ [125]

def dumpsList : List Json → List Byte
  | [] => []
  | [v] => dumps v
  | v :: vs => dumps v ++ [44, 32] ++ dumpsList vs

def dumpsDict : List (Str × Json) → List Byte
  | [] => []
  | [(key, v)] => dumpsStr key ++ [58, 32] ++ dumps v
  | (key, v) :: kvs => dumpsStr key ++ [58, 32] ++ dumps v ++ [44, 32] ++ dumpsDict kvs

end

/-- A Python literal. -/
def pyStr (s : String) : Str := s.toList.map Char.toNat

/-- LobbyPublisher's payload for the same arguments, after an update and, if `offline`,
    a shutdown. -/
def payload (a : LobbyArgs) (curplayers : Int) (offline : Bool) : Json :=
  .dict [
    (pyStr "game", .str (decodeAscii a.gameName.bytes)),
    (pyStr "appkey", .int a.appkey),
    (pyStr "server", .str (decodeAscii a.serverName.bytes)),
    (pyStr "region", .str (decodeAscii a.region.bytes)),
    (pyStr "serverurl", .str (decodeAscii a.serverurl.bytes)),
    (pyStr "status", .str (pyStr (if offline then "offline" else "online"))),
    (pyStr "maxplayers", .int a.maxplayers),
    (pyStr "curplayers", .int curplayers),
    (pyStr "clients", .list [.dict [
      (pyStr "platform", .str (pyStr "intv")),
      (pyStr "url", .str (decodeAscii a.clientUrl.bytes))]])]

/-! ## json_esc -/

/-- A string as json_esc writes it. -/
def esc (src : List Byte) : List Byte := (src.map escByte).flatten

theorem jsonEscLoop_eq (sz : Nat) (src dst : List Byte) :
    jsonEscLoop sz src dst =
      if sz ≤ dst.length + (esc src).length then none else some (dst ++ esc src) := by
  induction src generalizing dst with
  | nil => simp [jsonEscLoop, esc]
  | cons p src ih =>
    have hesc : esc (p :: src) = escByte p ++ esc src := by simp [esc]
    rw [jsonEscLoop, ih, hesc]
    simp only [List.length_append, List.append_assoc]
    split_ifs with h1 h2 h3 <;> first | rfl | omega

theorem jsonEsc_eq (src : List Byte) (sz : Nat) :
    jsonEsc src sz = if sz ≤ (esc src).length then none else some (esc src) := by
  rw [jsonEsc, jsonEscLoop_eq]
  simp

/-- The widths of the escapes. -/
def escWidth (p : Byte) : Nat :=
  if p ∈ ([34, 92, 8, 12, 10, 13, 9] : List Byte) then 2 else if p < 0x20 then 6 else 1

theorem escByte_length (p : Byte) : (escByte p).length = escWidth p := by
  have hall : ∀ n < 256, (escByte (UInt8.ofNat n)).length = escWidth (UInt8.ofNat n) := by
    decide +kernel
  have := hall p.toNat p.toNat_lt
  rwa [UInt8.ofNat_toNat] at this

theorem escByte_length_le (p : Byte) : (escByte p).length ≤ 6 := by
  rw [escByte_length, escWidth]
  split_ifs <;> decide

theorem esc_length_le (src : List Byte) : (esc src).length ≤ 6 * src.length := by
  induction src with
  | nil => simp [esc]
  | cons p src ih =>
    have := escByte_length_le p
    simp only [esc, List.map_cons, List.flatten_cons, List.length_append, List.length_cons] at ih ⊢
    omega

/-- Six bytes for each character are always enough. -/
theorem jsonEsc_fits {sz : Nat} (s : Ascii sz) : jsonEsc s.bytes (sz * 6) = some (esc s.bytes) := by
  have h1 := esc_length_le s.bytes
  have h2 := s.fits
  rw [jsonEsc_eq, if_neg (by omega)]

/-! ## The body -/

/-- The pieces of the body, its strings through `f`. -/
def body (f : List Byte → List Byte) (l : Lobby) : List (List Byte) := [
  txt "\x7b\"game\": \"", f l.game.bytes, txt "\", \"appkey\": ", decimal l.appkey,
  txt ", \"server\": \"", f l.server.bytes, txt "\", \"region\": \"", f l.region.bytes,
  txt "\", \"serverurl\": \"", f l.serverurl.bytes, txt "\", \"status\": \"",
  if l.offline then txt "offline" else txt "online",
  txt "\", \"maxplayers\": ", decimal l.maxplayers,
  txt ", \"curplayers\": ", decimal l.curplayers,
  txt ", \"clients\": [\x7b\"platform\": \"intv\", \"url\": \"", f l.clientUrl.bytes,
  txt "\"\x7d]\x7d"]

theorem renderJson_eq (l : Lobby) (sz : Nat) : renderJson l sz = snprintf sz (body esc l) := by
  have hr : jsonEsc l.region.bytes (64 * 6) = some (esc l.region.bytes) := jsonEsc_fits l.region
  unfold renderJson
  rw [jsonEsc_fits l.game, jsonEsc_fits l.server, hr, jsonEsc_fits l.serverurl,
    jsonEsc_fits l.clientUrl]
  rfl

/-- A string as json.dumps writes it. -/
def escPy (src : List Byte) : List Byte := ((decodeAscii src).map escChar).flatten

theorem copyAscii_bytes {sz : Nat} {src : CStr} {s : Ascii sz} (h : copyAscii sz src = some s) :
    s.bytes = src.bytes := by
  unfold copyAscii at h
  split_ifs at h
  rw [← Option.some.inj h]

/-- lobby_start copies what it is given. -/
theorem lobbyStart_some {up : Bool} {a : LobbyArgs} {l : Lobby} (h : lobbyStart up a = some l) :
    l.game.bytes = a.gameName.bytes ∧ l.server.bytes = a.serverName.bytes ∧
    l.region.bytes = a.region.bytes ∧ l.serverurl.bytes = a.serverurl.bytes ∧
    l.clientUrl.bytes = a.clientUrl.bytes ∧ l.appkey = a.appkey ∧ l.maxplayers = a.maxplayers := by
  cases up with
  | false => cases h
  | true =>
    obtain ⟨su, h1, h⟩ := Option.bind_eq_some_iff.mp h
    obtain ⟨cu, h2, h⟩ := Option.bind_eq_some_iff.mp h
    obtain ⟨g, h3, h⟩ := Option.bind_eq_some_iff.mp h
    obtain ⟨s, h4, h⟩ := Option.bind_eq_some_iff.mp h
    obtain ⟨r, h5, h⟩ := Option.bind_eq_some_iff.mp h
    cases h
    exact ⟨copyAscii_bytes h3, copyAscii_bytes h4, copyAscii_bytes h5, copyAscii_bytes h1,
      copyAscii_bytes h2, rfl, rfl⟩

/-- What stands before the value of `key`. -/
def keyText (key : String) : List Byte := dumpsStr (pyStr key) ++ [58, 32]

/-- The literals of the template. -/
def bodyTexts : List String :=
  ["\x7b\"game\": \"", "\", \"appkey\": ", ", \"server\": \"",
   "\", \"region\": \"", "\", \"serverurl\": \"", "\", \"status\": \"", "\", \"maxplayers\": ",
   ", \"curplayers\": ", ", \"clients\": [\x7b\"platform\": \"intv\", \"url\": \"",
   "\"\x7d]\x7d"]

/-- The template of render_json, cut where json.dumps cuts. -/
theorem body_eq (f : List Byte → List Byte) (l : Lobby) : (body f l).flatten =
    [123] ++ (keyText "game" ++ ([34] ++ f l.game.bytes ++ [34]) ++ [44, 32] ++
    (keyText "appkey" ++ decimal l.appkey ++ [44, 32] ++
    (keyText "server" ++ ([34] ++ f l.server.bytes ++ [34]) ++ [44, 32] ++
    (keyText "region" ++ ([34] ++ f l.region.bytes ++ [34]) ++ [44, 32] ++
    (keyText "serverurl" ++ ([34] ++ f l.serverurl.bytes ++ [34]) ++ [44, 32] ++
    (keyText "status" ++ ([34] ++ (if l.offline then txt "offline" else txt "online") ++ [34]) ++
      [44, 32] ++
    (keyText "maxplayers" ++ decimal l.maxplayers ++ [44, 32] ++
    (keyText "curplayers" ++ decimal l.curplayers ++ [44, 32] ++
    (keyText "clients" ++ ([91] ++ ([123] ++
      (keyText "platform" ++ dumpsStr (pyStr "intv") ++ [44, 32] ++
      (keyText "url" ++ ([34] ++ f l.clientUrl.bytes ++ [34]))) ++ [125]) ++ [93]))))))))))
      ++ [125] := by
  have h1 : txt "\x7b\"game\": \"" = [123] ++ keyText "game" ++ [34] := by
    with_unfolding_all rfl
  have h2 : txt "\", \"appkey\": " = [34] ++ [44, 32] ++ keyText "appkey" := by
    with_unfolding_all rfl
  have h3 : txt ", \"server\": \"" = [44, 32] ++ keyText "server" ++ [34] := by
    with_unfolding_all rfl
  have h4 : txt "\", \"region\": \"" = [34] ++ [44, 32] ++ keyText "region" ++ [34] := by
    with_unfolding_all rfl
  have h5 : txt "\", \"serverurl\": \"" = [34] ++ [44, 32] ++ keyText "serverurl" ++ [34] := by
    with_unfolding_all rfl
  have h6 : txt "\", \"status\": \"" = [34] ++ [44, 32] ++ keyText "status" ++ [34] := by
    with_unfolding_all rfl
  have h7 : txt "\", \"maxplayers\": " = [34] ++ [44, 32] ++ keyText "maxplayers" := by
    with_unfolding_all rfl
  have h8 : txt ", \"curplayers\": " = [44, 32] ++ keyText "curplayers" := by
    with_unfolding_all rfl
  have h9 : txt ", \"clients\": [\x7b\"platform\": \"intv\", \"url\": \"" =
      [44, 32] ++ keyText "clients" ++ [91] ++ [123] ++ keyText "platform" ++
      dumpsStr (pyStr "intv") ++ [44, 32] ++ keyText "url" ++ [34] := by
    with_unfolding_all rfl
  have h10 : txt "\"\x7d]\x7d" = [34] ++ [125] ++ [93] ++ [125] := by
    with_unfolding_all rfl
  simp only [body, h1, h2, h3, h4, h5, h6, h7, h8, h9, h10, List.flatten_cons, List.flatten_nil,
    List.append_assoc, List.append_nil]

theorem copyAscii_of {sz : Nat} {src : CStr} (h : src.bytes.length < sz)
    (h' : ∀ b ∈ src.bytes, b ≤ 0x7F) : ∃ s, copyAscii sz src = some s := by
  have hlow : ¬ ∃ b ∈ src.bytes, 0x7F < b := by
    rintro ⟨b, hb, hlt⟩
    exact UInt8.not_lt.mpr (h' b hb) hlt
  unfold copyAscii
  rw [dif_neg (Nat.not_le_of_lt h), dif_neg hlow]
  exact ⟨_, rfl⟩

/-- The strings of a registration. -/
def LobbyArgs.strings (a : LobbyArgs) : List (List Byte) :=
  [a.gameName.bytes, a.serverName.bytes, a.region.bytes, a.serverurl.bytes, a.clientUrl.bytes]

/-- Every ASCII configuration within the limits is accepted. -/
theorem lobbyStart_accepts {a : LobbyArgs} (hlow : ∀ s ∈ a.strings, ∀ b ∈ s, b ≤ 0x7F)
    (hlen : ∀ s ∈ a.strings, s.length < strMax) (hregion : a.region.bytes.length < regionMax) :
    ∃ l, lobbyStart true a = some l := by
  simp only [LobbyArgs.strings, List.forall_mem_cons] at hlow hlen
  obtain ⟨l1, l2, l3, l4, l5, -⟩ := hlow
  obtain ⟨b1, b2, -, b4, b5, -⟩ := hlen
  obtain ⟨g, hg⟩ := copyAscii_of b1 l1
  obtain ⟨s, hs⟩ := copyAscii_of b2 l2
  obtain ⟨r, hr⟩ := copyAscii_of hregion l3
  obtain ⟨su, hsu⟩ := copyAscii_of b4 l4
  obtain ⟨cu, hcu⟩ := copyAscii_of b5 l5
  refine ⟨⟨g, s, r, su, cu, a.appkey, a.maxplayers, 0, false⟩, ?_⟩
  simp only [lobbyStart, Bool.not_true, Bool.false_eq_true, if_false, hg, hs, hr, hsu, hcu,
    Option.bind_eq_bind, Option.bind_some]
  rfl

theorem dumps_payload {up : Bool} {a : LobbyArgs} {l : Lobby} (h : lobbyStart up a = some l)
    (curplayers : Int) (offline : Bool) :
    dumps (payload a curplayers offline) = (body escPy (l.update curplayers offline)).flatten := by
  obtain ⟨h1, h2, h3, h4, h5, h6, h7⟩ := lobbyStart_some h
  have hstatus : dumpsStr (pyStr (if offline then "offline" else "online")) =
      [34] ++ (if offline then txt "offline" else txt "online") ++ [34] := by
    cases offline <;> with_unfolding_all rfl
  rw [body_eq]
  simp only [payload, dumps, dumpsDict, dumpsList, Lobby.update, keyText, h1, h2, h3, h4, h5, h6, h7,
    hstatus]
  simp only [dumpsStr, escPy]

/-! ## Where they agree -/

/-- One character: they differ at $7F only. -/
theorem escByte_eq {p : Byte} (h : p ≤ 0x7F) (h' : p ≠ 0x7F) : escByte p = escChar p.toNat := by
  have hall : ∀ n < 127, escByte (UInt8.ofNat n) = escChar n := by decide
  have hlt : p.toNat < 127 := by
    have h1 : p.toNat ≤ 127 := UInt8.le_iff_toNat_le.mp h
    have h2 : p.toNat ≠ 127 := fun he => h' (UInt8.toNat_inj.mp he)
    omega
  have := hall p.toNat hlt
  rwa [UInt8.ofNat_toNat] at this

theorem esc_eq {src : List Byte} (h : ∀ b ∈ src, b ≤ 0x7F) (h' : 0x7F ∉ src) :
    esc src = escPy src := by
  unfold esc escPy decodeAscii
  rw [List.map_map]
  refine congrArg List.flatten (List.map_congr_left (fun b hb => ?_))
  have hlow := h b hb
  have hne : b ≠ 0x7F := fun he => h' (he ▸ hb)
  have hlt : b < 0x80 := UInt8.lt_of_le_of_lt hlow (by decide)
  simp only [Function.comp_apply, hlt, if_true, escByte_eq hlow hne]

/-- Nothing json.dumps writes for an ASCII character is $7F. -/
theorem del_not_mem_escPy {src : List Byte} (h : ∀ b ∈ src, b ≤ 0x7F) : 0x7F ∉ escPy src := by
  have hall : ∀ n < 128, (0x7F : Byte) ∉ escChar n := by decide
  intro hmem
  obtain ⟨bs, hbs, hin⟩ := List.mem_flatten.mp hmem
  obtain ⟨ch, hch, rfl⟩ := List.mem_map.mp hbs
  obtain ⟨b, hb, rfl⟩ := List.mem_map.mp hch
  have hlow := h b hb
  have hlt : b < 0x80 := UInt8.lt_of_le_of_lt hlow (by decide)
  rw [if_pos hlt] at hin
  exact hall _ (Nat.lt_succ_of_le (UInt8.le_iff_toNat_le.mp hlow)) hin

theorem del_mem_esc {src : List Byte} (h : 0x7F ∈ src) : 0x7F ∈ esc src := by
  refine List.mem_flatten.mpr ⟨escByte 0x7F, List.mem_map_of_mem h, ?_⟩
  decide

theorem del_not_mem_decimal (n : Int) : 0x7F ∉ decimal n := by
  intro hmem
  rcases List.mem_append.mp hmem with h | h
  · split at h <;> simp at h
  · obtain ⟨ch, hch, he⟩ := List.mem_map.mp h
    have hd := Nat.isDigit_of_mem_toDigits (by decide) (by decide) hch
    have hrange : 48 ≤ ch.toNat ∧ ch.toNat ≤ 57 := by
      simp only [Char.isDigit, Bool.and_eq_true, decide_eq_true_eq] at hd
      exact hd
    have hval := congrArg UInt8.toNat he
    rw [UInt8.toNat_ofNat'] at hval
    simp at hval
    omega

/-- The length of a string between its quotes. -/
def escLen (src : List Byte) : Nat := (src.map escWidth).sum

theorem esc_length (src : List Byte) : (esc src).length = escLen src := by
  unfold esc escLen
  rw [List.length_flatten, List.map_map]
  exact congrArg List.sum (List.map_congr_left (fun p _ => escByte_length p))

/-- The length of the body: its own 161 characters, the strings, the numbers, the status. -/
def bodyLen (a : LobbyArgs) (curplayers : Int) (offline : Bool) : Nat :=
  161 + (a.strings.map escLen).sum + (decimal a.appkey).length + (decimal a.maxplayers).length +
    (decimal curplayers).length + (if offline then 7 else 6)

theorem bodyTexts_length :
    bodyTexts.map (fun str => (txt str).length) = [10, 13, 13, 14, 17, 14, 17, 16, 43, 4] := by
  decide +kernel

theorem status_length (offline : Bool) :
    (if offline then txt "offline" else txt "online").length = if offline then 7 else 6 := by
  cases offline <;> decide +kernel

theorem body_lengths (l : Lobby) : (body esc l).map List.length =
    [10, escLen l.game.bytes, 13, (decimal l.appkey).length, 13, escLen l.server.bytes,
     14, escLen l.region.bytes, 17, escLen l.serverurl.bytes, 14, if l.offline then 7 else 6,
     17, (decimal l.maxplayers).length, 16, (decimal l.curplayers).length,
     43, escLen l.clientUrl.bytes, 4] := by
  have htxt := bodyTexts_length
  simp only [bodyTexts, List.map_cons, List.map_nil, List.cons.injEq, and_true] at htxt
  simp only [body, List.map_cons, List.map_nil, esc_length, status_length, htxt]

/-- The pieces of such a body, added up. -/
theorem sum_pieces (g s r su cu o A M C : Nat) :
    [10, g, 13, A, 13, s, 14, r, 17, su, 14, o, 17, M, 16, C, 43, cu, 4].sum =
      161 + [g, s, r, su, cu].sum + A + M + C + o := by
  simp only [List.sum_cons, List.sum_nil]
  omega

theorem body_length {up : Bool} {a : LobbyArgs} {l : Lobby} (h : lobbyStart up a = some l)
    (curplayers : Int) (offline : Bool) :
    (body esc (l.update curplayers offline)).flatten.length = bodyLen a curplayers offline := by
  obtain ⟨h1, h2, h3, h4, h5, h6, h7⟩ := lobbyStart_some h
  rw [List.length_flatten, body_lengths, sum_pieces, bodyLen, LobbyArgs.strings, ← h1, ← h2, ← h3,
    ← h4, ← h5, ← h6, ← h7]
  rfl

/-- A body with $7F in it is none of json.dumps'. -/
theorem body_ne {l : Lobby} {s : List Byte}
    (hs : s ∈ [l.game.bytes, l.server.bytes, l.region.bytes, l.serverurl.bytes, l.clientUrl.bytes])
    (hd : 0x7F ∈ s) : (body esc l).flatten ≠ (body escPy l).flatten := by
  intro heq
  have hin : 0x7F ∈ (body esc l).flatten := by
    have hesc := del_mem_esc hd
    simp only [List.mem_cons, List.not_mem_nil, or_false] at hs
    simp only [body, List.flatten_cons, List.mem_append]
    rcases hs with rfl | rfl | rfl | rfl | rfl <;> simp only [hesc, true_or, or_true]
  have hout : 0x7F ∉ (body escPy l).flatten := by
    have hstatus : 0x7F ∉ (if l.offline then txt "offline" else txt "online") := by
      split <;> decide +kernel
    have h1 := del_not_mem_escPy l.game.low
    have h2 := del_not_mem_escPy l.server.low
    have h3 := del_not_mem_escPy l.region.low
    have h4 := del_not_mem_escPy l.serverurl.low
    have h5 := del_not_mem_escPy l.clientUrl.low
    have htxt : ∀ str ∈ bodyTexts, 0x7F ∉ txt str := by decide +kernel
    simp only [bodyTexts, List.forall_mem_cons] at htxt
    simp only [body, List.flatten_cons, List.flatten_nil, List.not_mem_nil, List.mem_append, htxt,
      hstatus, h1, h2, h3, h4, h5, del_not_mem_decimal, or_self, not_false_eq_true]
  exact hout (heq ▸ hin)

/-! ## Byte identity -/

/-- render_json gives what json.dumps gives if and only if no string contains $7F and the
    body fits the worker's buffer with its NUL. -/
theorem render_json_iff {up : Bool} {a : LobbyArgs} {l : Lobby} (h : lobbyStart up a = some l)
    (curplayers : Int) (offline : Bool) :
    renderJson (l.update curplayers offline) jsonMax =
        some (dumps (payload a curplayers offline)) ↔
      (∀ s ∈ a.strings, 0x7F ∉ s) ∧ bodyLen a curplayers offline < jsonMax := by
  rw [renderJson_eq, dumps_payload h, snprintf, body_length h]
  obtain ⟨h1, h2, h3, h4, h5, -, -⟩ := lobbyStart_some h
  have hstr : a.strings = [l.game.bytes, l.server.bytes, l.region.bytes, l.serverurl.bytes,
      l.clientUrl.bytes] := by
    rw [LobbyArgs.strings, h1, h2, h3, h4, h5]
  rw [hstr]
  constructor
  · intro heq
    split_ifs at heq with hlen
    refine ⟨fun s hs hd => ?_, Nat.lt_of_not_le hlen⟩
    exact body_ne (l := l.update curplayers offline) hs hd (Option.some.inj heq)
  · rintro ⟨hd, hlen⟩
    rw [if_neg (Nat.not_le_of_lt hlen)]
    simp only [List.forall_mem_cons] at hd
    obtain ⟨d1, d2, d3, d4, d5, -⟩ := hd
    simp only [body, Lobby.update, esc_eq l.game.low d1, esc_eq l.server.low d2,
      esc_eq l.region.low d3, esc_eq l.serverurl.low d4, esc_eq l.clientUrl.low d5]

/-- The Python defaults, with a game name of our own. -/
def defaultArgs (name : CStr) : LobbyArgs where
  serverurl := ⟨txt "TCP://fujinet.online:9114/", by decide +kernel⟩
  clientUrl := ⟨txt "TNFS://apps.irata.online/NBABasketball.rom", by decide +kernel⟩
  appkey := 22
  region := ⟨txt "us", by decide +kernel⟩
  gameName := name
  serverName := ⟨txt "Basketball Netplay", by decide +kernel⟩
  maxplayers := 2

theorem render_json_iff_nba : ∃ l,
    lobbyStart true (defaultArgs ⟨txt "NBA \"Basketball\"", by decide +kernel⟩) = some l ∧
    renderJson (l.update 1 false) jsonMax =
      some (dumps (payload (defaultArgs ⟨txt "NBA \"Basketball\"", by decide +kernel⟩) 1 false)) := by
  obtain ⟨l, hl⟩ := lobbyStart_accepts (a := defaultArgs ⟨txt "NBA \"Basketball\"", by decide +kernel⟩)
    (by decide +kernel) (by decide +kernel) (by decide +kernel)
  exact ⟨l, hl, (render_json_iff hl 1 false).mpr ⟨by decide +kernel, by decide +kernel⟩⟩

/-- A game name with $7F in it: json_esc copies the byte, json.dumps writes \u007f. -/
theorem render_json_del : ∃ l,
    lobbyStart true (defaultArgs ⟨txt "HOOPS" ++ [0x7F], by decide +kernel⟩) = some l ∧
    renderJson (l.update 0 false) jsonMax ≠
      some (dumps (payload (defaultArgs ⟨txt "HOOPS" ++ [0x7F], by decide +kernel⟩) 0 false)) := by
  obtain ⟨l, hl⟩ := lobbyStart_accepts (a := defaultArgs ⟨txt "HOOPS" ++ [0x7F], by decide +kernel⟩)
    (by decide +kernel) (by decide +kernel) (by decide +kernel)
  refine ⟨l, hl, fun heq => ?_⟩
  have hd : 0x7F ∈ (l.update 0 false).game.bytes := by
    change 0x7F ∈ l.game.bytes
    rw [(lobbyStart_some hl).1]
    decide +kernel
  rw [renderJson_eq, dumps_payload hl, snprintf] at heq
  split_ifs at heq
  exact body_ne List.mem_cons_self hd (Option.some.inj heq)

end IntvBasketball.Relay
