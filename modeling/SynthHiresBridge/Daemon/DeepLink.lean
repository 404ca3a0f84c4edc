import SynthHiresBridge.Data.Cut

namespace Daemon

/-- A backend is checked before anything is sent to it or stored for it. -/
def validateBackendUrl (backend : String) : Except String Unit :=
  let b := Text.trim backend
  if b = "" then .error "backend vacío"
  else
    match Text.splitOnce "://".toList (Text.lower b.toList) with
    | none => .error ("backend sin esquema válido: " ++ b)
    | some (scheme, rest) =>
        if ["https", "wss", "http", "ws"].all fun known => scheme ≠ known.toList then
          .error ("esquema no permitido en backend: " ++ b)
        else
          let authority := rest.takeWhile (· ≠ '/')
          if authority = [] then .error ("backend sin host: " ++ b)
          else if authority.contains '@' then
            .error ("backend con userinfo no permitido: " ++ b)
          else
            let host := authority.takeWhile (· ≠ ':')
            let loopback := ["localhost", "127.0.0.1", "::1", "[::1]"].any fun known =>
              host = known.toList
            if (scheme = "http".toList ∨ scheme = "ws".toList) ∧ ¬ loopback then
              .error ("http/ws solo permitido en loopback: " ++ b)
            else if b.toList.any fun char => Text.isControl char || char = ' ' then
              .error ("backend con caracteres inválidos: " ++ b)
            else .ok ()

/-- The endpoint that the client dials has the path of the socket once. -/
def wsEndpointForOrigin (backendOrigin wsPath : String) : String :=
  if "ws://".toList.isPrefixOf wsPath.toList || "wss://".toList.isPrefixOf wsPath.toList then wsPath
  else if "ws://".toList.isPrefixOf backendOrigin.toList ||
      "wss://".toList.isPrefixOf backendOrigin.toList then backendOrigin
  else
    let trimmed := String.ofList (backendOrigin.toList.rdropWhile (· = '/'))
    let origin := Text.replace (Text.replace trimmed "https://" "wss://") "http://" "ws://"
    if wsPath.toList.isSuffixOf trimmed.toList then origin else origin ++ wsPath

example : wsEndpointForOrigin "http://host/" "/api/devices/ws" = "ws://host/api/devices/ws" := by
  decide

namespace DeepLink

/-- The value of a hexadecimal digit. -/
def hex (byte : UInt8) : Option Nat :=
  let code := byte.toNat
  if 48 ≤ code ∧ code ≤ 57 then some (code - 48)
  else if 97 ≤ code ∧ code ≤ 102 then some (code - 97 + 10)
  else if 65 ≤ code ∧ code ≤ 70 then some (code - 65 + 10)
  else none

/-- A percent sign without two digits after it stands for itself. -/
def urlDecodeBytes : List UInt8 → List UInt8
  | [] => []
  | byte :: first :: second :: rest =>
      if byte = 37 then
        match hex first, hex second with
        | some hi, some lo => UInt8.ofNat (16 * hi + lo) :: urlDecodeBytes rest
        | _, _ => byte :: urlDecodeBytes (first :: second :: rest)
      else byte :: urlDecodeBytes (first :: second :: rest)
  | byte :: rest => byte :: urlDecodeBytes rest

def urlDecode (input : String) : String :=
  Text.lossy (urlDecodeBytes (Text.encode input))

/-- A part has its key before the first equals sign. -/
def paramOf (key : String) (part : List Char) : Option String :=
  match Text.splitOnce ['='] part with
  | none => none
  | some (k, v) =>
      if Text.trim (String.ofList k) = key then some (urlDecode (Text.trim (String.ofList v)))
      else none

/-- The first part with the key gives the value. -/
def parseParam (cleanUri : List Char) (key : String) : Option String :=
  (cleanUri.splitOn '&').findSome? (paramOf key)

/-- What the listener answers, or the pairing that it then completes. -/
inductive LinkOutcome where
  | ignored
  | ack
  | legacyTokenLink
  | nack
  | pair (code : String) (pairingId : Option String) (backend : String)
  deriving DecidableEq

def pairOutcome (backendUrl : String) (param : String → Option String) : LinkOutcome :=
  if (param "token").isSome ∧ (param "code").isNone then .legacyTokenLink
  else
    match param "code" with
    | none => .nack
    | some code => .pair code (param "pairing_id") ((param "backend").getD backendUrl)

/-- The listener reads once into a buffer of 8192 bytes. -/
def handleLink (backendUrl : String) (sent : List UInt8) : LinkOutcome :=
  let msg := Text.lossy (sent.take 8192)
  match Text.stripPrefix "synthhires://".toList msg.toList with
  | none => .ignored
  | some uri =>
      let cleanUri := (Text.trim (String.ofList (uri.rdropWhile (· = '/')))).toList
      if cleanUri = "ping-ui".toList then .ack
      else pairOutcome backendUrl (parseParam cleanUri)

end DeepLink

end Daemon
