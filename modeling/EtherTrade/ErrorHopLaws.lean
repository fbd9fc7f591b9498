import EtherTrade.ExceptionFilters
import EtherTrade.OrdersTransactions

/-!
# Errors between a service and the gateway

What a client gets of an exception after both filters: when its status, its message and its
error code are those that the service gave.
-/

namespace EtherTrade.ErrorHopLaws

open JsonValues JsonTexts ExceptionFilters StatusCodes
open KafkaConsumer (includes)

variable {numberText : JsonNumber → String} {numberOf : String → JsonNumber}

/-! ### What the service gave -/

def givenMessage (exception : HttpException) : Message :=
  match exception.response with
  | .text line => .text line
  | .object message _ => message.join.getD (.text exception.message)

def givenErrorCode (exception : HttpException) : Option String :=
  match exception.response with
  | .text _ => none
  | .object _ errorCode => extractErrorCode errorCode

/-- The body of the response has a message, or there is no body. -/
def hasMessage (exception : HttpException) : Bool :=
  match exception.response with
  | .text _ => true
  | .object message _ => message.isSome

/-- An error code of the error itself, or of its details. -/
def rpcErrorCode (numberOf : String → JsonNumber) (error : RpcError) : Option String :=
  (GrpcExceptionFilter.errorCodeOfRpc numberOf error).filter (· ≠ "")

/-- The status that a code stands for, of gRPC or of HTTP. -/
def intendedStatus (code : ℕ) : Option ℕ :=
  (HttpExceptionFilter.grpcToHttpStatus code).or
    (if 100 ≤ code ∧ code < 600 then some code else none)

/-- The response that an exception is meant to become. Nothing is said of exceptions without a
status or without a message. -/
def intended (numberOf : String → JsonNumber) : Exception → Option HttpErrorResponseBody
  | .http exception =>
    some ⟨exception.status, (givenMessage exception).toJson, givenErrorCode exception⟩
  | .rpc (.object error) => do
    let status ← error.code.bind intendedStatus
    let message ← error.message
    return ⟨status, message.toJson, rpcErrorCode numberOf error⟩
  | _ => none

def lines : Message → List String
  | .text line => [line]
  | .texts lines => lines

/-- The text tells of a refused connection, as the gateway's filter reads it. -/
def mentionsRefusal (text : String) : Bool :=
  includes text "ECONNREFUSED" || includes text "No connection established"

/-- The message or the error code tells of a refused connection. -/
def tellsOfRefusal (message : Message) (errorCode : Option String) : Bool :=
  (lines message ++ errorCode.toList).any mentionsRefusal

/-! ### The details are read back -/

def fields (message : Message) (errorCode : Option String) : List (String × Json) :=
  ("message", message.toJson) :: (errorCode.map fun code => ("errorCode", .string code)).toList

theorem serializeErrorDetails_eq (message : Message) (errorCode : Option String) :
    serializeErrorDetails numberText message errorCode =
      String.ofList
        (stringify numberText (.object (fields message (errorCode.filter (· ≠ ""))))) := by
  unfold serializeErrorDetails fields
  cases errorCode with
  | none => rfl
  | some code => by_cases hcode : code = "" <;> simp [hcode, Option.filter]

theorem serializeErrorDetails_none {message : Message} {errorCode : Option String}
    (h : errorCode.filter (· ≠ "") = none) :
    serializeErrorDetails numberText message errorCode =
      serializeErrorDetails numberText message none := by
  rw [serializeErrorDetails_eq, serializeErrorDetails_eq, h]
  rfl

theorem numberFree_texts (texts : List String) :
    numberFreeItems (texts.map Json.string) = true := by
  induction texts with
  | nil => rfl
  | cons text texts ih => exact ih

theorem numberFree_fields (message : Message) (errorCode : Option String) :
    numberFree (.object (fields message errorCode)) = true := by
  have hmessage : numberFree message.toJson = true := by
    cases message with
    | text line => rfl
    | texts lines => exact numberFree_texts lines
  cases errorCode with
  | none => simp [fields, numberFree, numberFreeFields, hmessage]
  | some code => simp [fields, numberFree, numberFreeFields, hmessage]

theorem parseErrorDetails_serializeErrorDetails (message : Message) (errorCode : Option String) :
    parseErrorDetails numberOf (serializeErrorDetails numberText message errorCode) =
      some ⟨message.toJson, errorCode.filter (· ≠ "")⟩ := by
  rw [serializeErrorDetails_eq, parseErrorDetails, String.toList_ofList,
    parse_stringify numberText (numberFree_fields _ _)]
  cases errorCode.filter (· ≠ "") with
  | none => rfl
  | some code => rfl

/-! ### What the gateway's filter finds in the texts -/

def refusalTexts : List String := ["ECONNREFUSED", "No connection established"]

theorem part_of_refusal : ∀ text ∈ refusalTexts, Part text.toList := by
  rintro text (_ | ⟨_, _ | ⟨_, ⟨⟩⟩⟩) <;> exact Part.of_all (by decide) (by decide)

/-- Nothing that is written between the texts tells of a refusal. -/
theorem not_refusal_of_form : ∀ text ∈ refusalTexts,
    ∀ other ∈ ["message", "errorCode", " ", ""], ¬ text.toList <:+: other.toList := by
  decide

/-- What an error says of its code before the details. -/
def statusName (code : ℕ) : String := (GrpcStatus.names[code]?).getD "undefined"

theorem statusName_mem (code : ℕ) : statusName code ∈ "undefined" :: GrpcStatus.names := by
  unfold statusName
  cases hat : GrpcStatus.names[code]? with
  | none => exact List.mem_cons_self
  | some name => exact List.mem_cons_of_mem _ (List.mem_of_getElem? hat)

def statusText (code : ℕ) : String := toString code ++ " " ++ statusName code ++ ": "

theorem digit_of_mem_toString {c : Char} {n : ℕ} (h : c ∈ (toString n).toList) :
    c.isDigit = true := by
  rw [Nat.toString_eq_repr, Nat.toList_repr] at h
  exact Nat.isDigit_of_mem_toDigits (by decide) (by decide) h

theorem mem_statusName {c : Char} {code : ℕ} (h : c ∈ (statusText code).toList)
    (digit : c.isDigit = false) (other : c ∉ [' ', ':']) : c ∈ (statusName code).toList := by
  simp only [statusText, String.toList_append, List.mem_append] at h
  rcases h with ((hcode | hspace) | hname) | hend
  · exact absurd (digit_of_mem_toString hcode) (by simp [digit])
  · exact absurd (List.mem_cons.mpr (.inl (List.mem_singleton.mp hspace))) other
  · exact hname
  · exact absurd (by simpa [or_comm] using hend) other

theorem not_infix_statusText (code : ℕ) {part : String}
    (hpart : part ∈ refusalTexts) : ¬ part.toList <:+: (statusText code).toList := by
  intro inside
  have hname := statusName_mem code
  have held {c : Char} (hc : c ∈ part.toList) (digit : c.isDigit = false)
      (other : c ∉ [' ', ':']) : c ∈ (statusName code).toList :=
    mem_statusName (inside.subset hc) digit other
  generalize statusName code = name at hname held
  rcases List.mem_pair.mp hpart with rfl | rfl
  · -- no name has both letters
    have hF : 'F' ∈ name.toList := held (by decide) rfl (by decide)
    have hS : 'S' ∈ name.toList := held (by decide) rfl (by decide)
    clear held
    revert name
    decide
  · have hb : 'b' ∈ name.toList := held (by decide) rfl (by decide)
    clear held
    revert name
    decide

theorem writtenItems_texts (texts : List String) :
    writtenItems numberText (texts.map Json.string) = texts := by
  induction texts with
  | nil => rfl
  | cons text texts ih => rw [List.map_cons, writtenItems, ih, writtenTexts, List.singleton_append]

theorem found_fields {part : String} (hpart : part ∈ refusalTexts) (message : Message)
    (errorCode : Option String) :
    Found part.toList (writtenFields numberText (fields message errorCode)) ↔
      Found part.toList (lines message ++ errorCode.toList) := by
  have hmessage : writtenTexts numberText message.toJson = lines message := by
    cases message with
    | text line => rfl
    | texts lines => exact writtenItems_texts lines
  have named := not_refusal_of_form part hpart
  rw [fields, writtenFields, hmessage, found_cons, found_append, found_append,
    or_iff_right (named _ (by decide))]
  cases errorCode with
  | none => rfl
  | some code =>
    rw [Option.map_some, Option.toList_some, writtenFields, writtenTexts, writtenFields,
      List.append_nil, found_cons, or_iff_right (named _ (by decide)), Option.toList_some]

section Delivered

variable (code : ℕ) (message : Message) (errorCode : Option String) {details : String}
variable (hdetails : details = serializeErrorDetails numberText message errorCode)

include hdetails

theorem includes_delivered {part : String} (hpart : part ∈ refusalTexts) :
    includes (statusText code ++ details ++ " " ++ details) part =
      (lines message ++ (errorCode.filter (· ≠ "")).toList).any (includes · part) := by
  have hp := part_of_refusal part hpart
  have between := not_refusal_of_form part hpart
  have hwritten : details.toList =
      stringify numberText (.object (fields message (errorCode.filter (· ≠ "")))) := by
    rw [hdetails, serializeErrorDetails_eq, String.toList_ofList]
  have again := infix_object numberText hp " ".toList "".toList
    (fields message (errorCode.filter (· ≠ "")))
  rw [← hwritten, or_iff_right (between _ (by decide)), or_iff_left (between _ (by decide)),
    found_fields hpart, String.toList_empty, List.append_nil] at again
  have found := infix_object numberText hp (statusText code).toList (" ".toList ++ details.toList)
    (fields message (errorCode.filter (· ≠ "")))
  rw [← hwritten, or_iff_right (not_infix_statusText code hpart), found_fields hpart, again,
    or_self] at found
  have joined : (statusText code ++ details ++ " " ++ details).toList =
      (statusText code).toList ++ (details.toList ++ (" ".toList ++ details.toList)) := by
    simp only [String.toList_append, List.append_assoc]
  rw [Bool.eq_iff_iff, List.any_eq_true, includes, decide_eq_true_eq, joined, found]
  simp only [Found, includes, decide_eq_true_eq]

theorem isConnectionRefused_delivered :
    HttpExceptionFilter.isConnectionRefused (statusText code ++ details) details =
      tellsOfRefusal message (errorCode.filter (· ≠ "")) := by
  rw [HttpExceptionFilter.isConnectionRefused,
    includes_delivered code message errorCode hdetails (by decide),
    includes_delivered code message errorCode hdetails (by decide), Bool.eq_iff_iff, tellsOfRefusal]
  simp only [Bool.or_eq_true, List.any_eq_true, mentionsRefusal, and_or_left, exists_or]

end Delivered

/-! ### The message for a service that is not there -/

open HttpExceptionFilter (portMatch knownGrpcServices upstreamUnavailable)
open HttpExceptionFilter (formatUnavailableMessage)

/-- Each colon stands directly before a character that is not a digit. -/
def noPort : List Char → Bool
  | [] => true
  | [c] => c ≠ ':'
  | c :: d :: rest => (c ≠ ':' || !d.isDigit) && noPort (d :: rest)

theorem noPort_of_not_mem {a : List Char} (h : ':' ∉ a) : noPort a = true := by
  fun_induction noPort a with
  | case1 => rfl
  | case2 c => simpa using fun same : c = ':' => h (by simp [same])
  | case3 c d rest ih =>
    rw [List.mem_cons, not_or] at h
    simp [ih h.2, Ne.symm h.1]

theorem noPort_append {a b : List Char} (ha : noPort a = true) (hb : noPort b = true) :
    noPort (a ++ b) = true := by
  fun_induction noPort a with
  | case1 => exact hb
  | case2 c =>
    cases b with
    | nil => simpa [noPort] using ha
    | cons d b =>
      have plain : c ≠ ':' := by simpa using ha
      simpa [noPort, plain] using hb
  | case3 c d rest ih =>
    rw [Bool.and_eq_true] at ha
    simp only [List.cons_append, noPort, Bool.and_eq_true]
    exact ⟨ha.1, ih ha.2⟩

theorem portMatch_none {a : List Char} (h : noPort a = true) : portMatch a = none := by
  fun_induction noPort a with
  | case1 => rfl
  | case2 c =>
    have plain : c ≠ ':' := by simpa using h
    rw [portMatch, if_neg fun found => plain found.1, portMatch]
  | case3 c d rest ih =>
    rw [Bool.and_eq_true] at h
    rw [portMatch, if_neg, ih h.2]
    rintro ⟨rfl, -, digits⟩
    have digit : d.isDigit = true := List.all_eq_true.mp digits d (by simp)
    simp [digit] at h

/-- Details of a message without an error code. -/
def detailsChars (line : String) : List Char :=
  '{' :: (quote "message" ++ ':' :: (quote line ++ ['}']))

/-- Details and message of an error with the code for a service that is not there. -/
def unavailableChars (line : String) : List Char :=
  detailsChars line ++ (" 14 UNAVAILABLE: ".toList ++ detailsChars line)

theorem unavailableChars_eq {line details : String}
    (hdetails : details = serializeErrorDetails numberText (.text line) none) :
    (details ++ " " ++ (statusText GrpcStatus.unavailable ++ details)).toList =
      unavailableChars line := by
  have hwritten : details.toList = detailsChars line := by
    rw [hdetails, serializeErrorDetails_eq, String.toList_ofList]
    rfl
  simp only [String.toList_append, hwritten, unavailableChars, List.append_assoc]
  rfl

theorem escape_digit {c : Char} (h : c.isDigit = true) : escape c = [c] := by
  have between := Char.isDigit_iff_toNat.mp h
  refine escape_plain ?_ ?_ (le_trans (by decide) between.1)
  · rintro rfl
    exact absurd h (by decide)
  · rintro rfl
    exact absurd h (by decide)

/-- Neither special in a JSON text nor part of the telltale words. -/
def ordinary (c : Char) : Bool :=
  escape c = [c] && c ≠ 'E' && c ≠ 'N'

theorem noPort_toString (port : ℕ) : noPort (toString port).toList = true :=
  noPort_of_not_mem fun colon => absurd (digit_of_mem_toString colon) (by decide)

theorem escape_fixed {text : List Char} (all : text.all (fun c => escape c = [c]) = true)
    (c : Char) (hc : c ∈ text) : escape c = [c] :=
  of_decide_eq_true (List.all_eq_true.mp all c hc)

theorem escape_ordinary {text : List Char} (all : text.all ordinary = true)
    {c : Char} (hc : c ∈ text) : escape c = [c] := by
  have here := List.all_eq_true.mp all c hc
  simp only [ordinary, Bool.and_eq_true, decide_eq_true_eq] at here
  exact here.1.1

theorem not_mem_ordinary {text : List Char} (all : text.all ordinary = true)
    {c : Char} (hc : c ∈ ['E', 'N']) : c ∉ text := by
  intro inside
  have here := List.all_eq_true.mp all c inside
  rcases List.mem_pair.mp hc with rfl | rfl <;> exact absurd here (by decide)

section Plain

variable {line : String} (plain : ∀ c ∈ line.toList, escape c = [c])
variable (hport : noPort line.toList = true)

include plain hport

theorem noPort_details : noPort (detailsChars line) = true := by
  have split : detailsChars line =
      ('{' :: quote "message" ++ [':', '"']) ++ (line.toList ++ ['"', '}']) := by
    rw [detailsChars, quote, quote, flatMap_escape plain]
    simp
  rw [split]
  exact noPort_append (by decide) (noPort_append hport (by decide))

/-- No port is found around a line that itself tells of none and needs no escape. -/
theorem portMatch_plain : portMatch (unavailableChars line) = none := by
  have details := noPort_details plain hport
  exact portMatch_none (noPort_append details (noPort_append (by decide) details))

end Plain

/-- A text about a port is not written so that a port is found in it again. -/
theorem portMatch_unknown (port : ℕ) :
    portMatch (unavailableChars ("Upstream microservice on port " ++ toString port ++
      " is unavailable (connection refused).")) = none := by
  refine portMatch_plain (fun c hc => ?_) ?_
  · rw [String.toList_append, String.toList_append, List.mem_append, List.mem_append] at hc
    rcases hc with (before | digit) | behind
    · exact escape_fixed (by decide) c before
    · exact escape_digit (digit_of_mem_toString digit)
    · exact escape_fixed (by decide) c behind
  · rw [String.toList_append, String.toList_append]
    exact noPort_append (noPort_append (by decide) (noPort_toString port)) (by decide)

/-- The names and commands are written in characters of which nothing is found or escaped. -/
theorem known_texts {port : ℕ} {name command : String}
    (h : knownGrpcServices port = some (name, command)) :
    (name.toList.all ordinary = true ∧ noPort name.toList = true) ∧
      command.toList.all ordinary = true ∧ noPort command.toList = true := by
  unfold knownGrpcServices at h
  split at h
  · cases h
    decide
  · cases h
    decide
  · cases h
    decide
  · cases h

theorem portMatch_known {port : ℕ} {name command : String}
    (h : knownGrpcServices port = some (name, command)) :
    portMatch (unavailableChars ("Upstream microservice '" ++ name ++ "' (port " ++
      toString port ++ ") is unavailable. Please ensure '" ++ command ++ "' is running.")) =
        none := by
  obtain ⟨⟨hname, noPort_name⟩, hcommand, noPort_command⟩ := known_texts h
  have digits := noPort_toString port
  refine portMatch_plain (fun c hc => ?_) ?_
  · simp only [String.toList_append, List.mem_append] at hc
    rcases hc with (((((before | name) | between) | digit) | between) | command) | behind
    · exact escape_fixed (by decide) c before
    · exact escape_ordinary hname name
    · exact escape_fixed (by decide) c between
    · exact escape_digit (digit_of_mem_toString digit)
    · exact escape_fixed (by decide) c between
    · exact escape_ordinary hcommand command
    · exact escape_fixed (by decide) c behind
  · simp only [String.toList_append]
    have head := noPort_append (noPort_append (a := "Upstream microservice '".toList) (by decide)
      noPort_name) (b := "' (port ".toList) (by decide)
    have middle := noPort_append (noPort_append head digits)
      (b := ") is unavailable. Please ensure '".toList) (by decide)
    exact noPort_append (noPort_append middle noPort_command) (by decide)

theorem formatUnavailableMessage_eq_iff {line details : String}
    (hdetails : details = serializeErrorDetails numberText (.text line) none) :
    formatUnavailableMessage details (statusText GrpcStatus.unavailable ++ details) = line ↔
      line = upstreamUnavailable := by
  rw [formatUnavailableMessage, unavailableChars_eq hdetails]
  constructor
  · intro same
    cases hport : portMatch (unavailableChars line) with
    | none =>
      rw [hport] at same
      exact same.symm
    | some port =>
      rw [hport] at same
      dsimp only at same
      cases hknown : knownGrpcServices port with
      | none =>
        rw [hknown] at same
        rw [← same, portMatch_unknown] at hport
        cases hport
      | some service =>
        rw [hknown] at same
        rw [← same, portMatch_known hknown] at hport
        cases hport
  · rintro rfl
    rw [portMatch_plain (escape_fixed (by decide)) (by decide)]

theorem formatUnavailableMessage_letters {c : Char} (hc : c ∈ ['E', 'N'])
    (details message : String) : c ∉ (formatUnavailableMessage details message).toList := by
  have fixed {text : List Char} (hE : 'E' ∉ text) (hN : 'N' ∉ text) : c ∉ text := by
    rcases List.mem_pair.mp hc with rfl | rfl
    · exact hE
    · exact hN
  have digits (port : ℕ) : c ∉ (toString port).toList := by
    intro digit
    have hdigit := digit_of_mem_toString digit
    rcases List.mem_pair.mp hc with rfl | rfl <;> exact absurd hdigit (by decide)
  unfold formatUnavailableMessage
  cases portMatch (details ++ " " ++ message).toList with
  | none => exact fixed (by decide) (by decide)
  | some port =>
    dsimp only
    cases hknown : knownGrpcServices port with
    | some service =>
      obtain ⟨name, command⟩ := service
      obtain ⟨⟨hname, -⟩, hcommand, -⟩ := known_texts hknown
      simp only [String.toList_append, List.mem_append, not_or]
      exact ⟨⟨⟨⟨⟨⟨fixed (by decide) (by decide), not_mem_ordinary hname hc⟩,
        fixed (by decide) (by decide)⟩, digits port⟩, fixed (by decide) (by decide)⟩,
        not_mem_ordinary hcommand hc⟩, fixed (by decide) (by decide)⟩
    | none =>
      simp only [String.toList_append, List.mem_append, not_or]
      exact ⟨⟨fixed (by decide) (by decide), digits port⟩, fixed (by decide) (by decide)⟩

/-- The messages for a service that is not there do not tell of a refused connection. -/
theorem formatUnavailableMessage_untold (details message : String) :
    mentionsRefusal (formatUnavailableMessage details message) = false := by
  have letters {c : Char} (hc : c ∈ ['E', 'N']) :=
    formatUnavailableMessage_letters hc details message
  rw [mentionsRefusal, Bool.or_eq_false_iff, includes, includes, decide_eq_false_iff_not,
    decide_eq_false_iff_not]
  exact ⟨fun inside => letters (by decide) (inside.subset (a := 'E') (by decide)),
    fun inside => letters (by decide) (inside.subset (a := 'N') (by decide))⟩

/-! ### The response to an exception -/

theorem serializeErrorDetails_ne (message : Message) (errorCode : Option String) :
    serializeErrorDetails numberText message errorCode ≠ "" := by
  intro empty
  have read : parseErrorDetails (fun _ => .finite 0)
      (serializeErrorDetails numberText message errorCode) = some _ :=
    parseErrorDetails_serializeErrorDetails message errorCode
  rw [empty] at read
  cases read

section Response

variable (channel : GrpcChannel) (isProduction : Bool) {exception : Exception} {code : ℕ}
variable {message : Message} {errorCode : Option String}
variable (hnormal : GrpcExceptionFilter.normalize numberOf exception = (code, message, errorCode))
variable (hcode : code ≠ GrpcStatus.ok)

include hnormal hcode

theorem deliver_caught :
    let details := serializeErrorDetails numberText message errorCode
    channel.deliver (GrpcExceptionFilter.catchException numberText numberOf exception) =
      ⟨code, details, statusText code ++ details⟩ := by
  rw [GrpcExceptionFilter.catchException, hnormal]
  exact channel.delivered _ hcode

theorem responseOf_unavailable
    (h : code = GrpcStatus.unavailable ∨
      tellsOfRefusal message (errorCode.filter (· ≠ "")) = true) :
    let details := serializeErrorDetails numberText message errorCode
    responseOf numberText numberOf channel isProduction exception =
      ⟨HttpStatus.serviceUnavailable,
        .string (formatUnavailableMessage details (statusText code ++ details)), none⟩ := by
  intro details
  rw [responseOf, deliver_caught channel hnormal hcode, HttpExceptionFilter.catchException,
    if_pos (by rwa [isConnectionRefused_delivered code message errorCode rfl])]
  rfl

theorem responseOf_told
    (h : ¬ (code = GrpcStatus.unavailable ∨
      tellsOfRefusal message (errorCode.filter (· ≠ "")) = true)) :
    responseOf numberText numberOf channel isProduction exception =
      ⟨(HttpExceptionFilter.grpcToHttpStatus code).getD HttpStatus.badGateway, message.toJson,
        errorCode.filter (· ≠ "")⟩ := by
  rw [responseOf, deliver_caught channel hnormal hcode, HttpExceptionFilter.catchException,
    if_neg (by rwa [isConnectionRefused_delivered code message errorCode rfl])]
  rw [HttpExceptionFilter.extractGrpcErrorPayload, if_pos (serializeErrorDetails_ne _ _),
    parseErrorDetails_serializeErrorDetails, Option.getD_some, HttpExceptionFilter.respond]
  simp

end Response

/-! ### Exceptions that arrive as they were meant -/

/-- What an exception must be like to arrive: a status that both tables know, no text about a
refused connection, and a message wherever there is an error code. The code for a service that
is not there loses every message but the one the gateway itself writes. -/
def Survives (numberOf : String → JsonNumber) : Exception → Prop
  | .http exception =>
    exception.status ∈ [400, 401, 403, 404, 409, 429, 500] ∧
      tellsOfRefusal (givenMessage exception) (givenErrorCode exception) = false ∧
        (hasMessage exception = true ∨ givenErrorCode exception = none)
  | .rpc (.object ⟨some code, some message, details, errorCode⟩) =>
    let given := rpcErrorCode numberOf ⟨some code, some message, details, errorCode⟩
    if code = GrpcStatus.unavailable then message = .text upstreamUnavailable ∧ given = none
    else (1 ≤ code ∧ code ≤ 16 ∨ code = HttpStatus.badGateway) ∧
      tellsOfRefusal message given = false
  | _ => True

theorem table_codeOfHttpStatus (status : ℕ) :
    (HttpExceptionFilter.grpcToHttpStatus (GrpcExceptionFilter.codeOfHttpStatus status)).getD
      HttpStatus.badGateway = status ↔ status ∈ [400, 401, 403, 404, 409, 429, 500] := by
  by_cases known : status ∈ [400, 401, 403, 404, 409, 429]
  · have all : ∀ status ∈ [400, 401, 403, 404, 409, 429],
        (HttpExceptionFilter.grpcToHttpStatus (GrpcExceptionFilter.codeOfHttpStatus status)).getD
          HttpStatus.badGateway = status := by decide
    exact iff_of_true (all status known) (List.mem_append_left [500] known)
  · have internal : GrpcExceptionFilter.codeOfHttpStatus status = GrpcStatus.internal := by
      unfold GrpcExceptionFilter.codeOfHttpStatus
      split <;> first | rfl | exact absurd (by decide) known
    rw [internal]
    have split : status ∈ [400, 401, 403, 404, 409, 429, 500] ↔ status = 500 :=
      ⟨fun h => (List.mem_append (s := [400, 401, 403, 404, 409, 429]).mp h).elim
        (absurd · known) List.mem_singleton.mp, fun h => by simp [h]⟩
    rw [split]
    exact eq_comm

theorem codeOfHttpStatus_mem (status : ℕ) :
    GrpcExceptionFilter.codeOfHttpStatus status ∈ [3, 5, 6, 7, 8, 13, 16] := by
  unfold GrpcExceptionFilter.codeOfHttpStatus
  split <;> decide

theorem table_of_intended {code status : ℕ} (h : intendedStatus code = some status) :
    (HttpExceptionFilter.grpcToHttpStatus code).getD HttpStatus.badGateway = status ↔
      code ≤ 16 ∨ code = HttpStatus.badGateway := by
  unfold intendedStatus at h
  cases htable : HttpExceptionFilter.grpcToHttpStatus code with
  | some known =>
    have below : code ≤ 16 := by
      unfold HttpExceptionFilter.grpcToHttpStatus at htable
      split at htable
      case h_18 => cases htable
      all_goals decide
    rw [htable] at h
    exact iff_of_true (Option.some.inj h) (.inl below)
  | none =>
    rw [htable, Option.none_or] at h
    split_ifs at h with between
    obtain rfl := Option.some.inj h
    rw [Option.getD_none]
    omega

theorem code_of_table_ok {code : ℕ}
    (h : (HttpExceptionFilter.grpcToHttpStatus code).getD HttpStatus.badGateway = HttpStatus.ok) :
    code = GrpcStatus.ok := by
  unfold HttpExceptionFilter.grpcToHttpStatus at h
  split at h
  case h_1 => rfl
  all_goals exact absurd h (by decide)

theorem eq_text_of_toJson {message : Message} {line : String} (h : .string line = message.toJson) :
    message = .text line := by
  cases message with
  | text other => rw [Json.string.inj h]
  | texts others => cases h

theorem not_told_by_line {message : Message} {errorCode : Option String} {details text : String}
    (h : (⟨HttpStatus.serviceUnavailable, .string (formatUnavailableMessage details text), none⟩ :
      HttpErrorResponseBody) = ⟨status, message.toJson, errorCode⟩) :
    tellsOfRefusal message errorCode = false := by
  obtain ⟨-, hmessage, rfl⟩ := HttpErrorResponseBody.mk.inj h
  rw [eq_text_of_toJson hmessage, tellsOfRefusal]
  simp [lines, formatUnavailableMessage_untold]

/-- The one message that the code for a service that is not there keeps. -/
theorem unavailable_line_iff {message : Message} {errorCode : Option String}
    (h : errorCode.filter (· ≠ "") = none) :
    let details := serializeErrorDetails numberText message errorCode
    .string (formatUnavailableMessage details (statusText GrpcStatus.unavailable ++ details)) =
        message.toJson ↔ message = .text upstreamUnavailable := by
  intro details
  cases message with
  | text line =>
    have same : formatUnavailableMessage details (statusText GrpcStatus.unavailable ++ details) =
        line ↔ line = upstreamUnavailable :=
      formatUnavailableMessage_eq_iff (serializeErrorDetails_none h)
    rw [Message.text.injEq, ← same, Message.toJson, Json.string.injEq]
  | texts others => exact iff_of_false (fun same => nomatch same) fun same => nomatch same

section Hop

variable (numberText : JsonNumber → String) (numberOf : String → JsonNumber)
variable (channel : GrpcChannel) (isProduction : Bool)

/-- No error becomes a response of success. -/
theorem statusCode_ne_ok (exception : Exception) :
    (responseOf numberText numberOf channel isProduction exception).statusCode ≠ HttpStatus.ok := by
  have failed := channel.failed
    (GrpcExceptionFilter.catchException numberText numberOf exception)
  unfold responseOf
  generalize channel.deliver _ = error at failed ⊢
  rw [HttpExceptionFilter.catchException]
  split_ifs
  · exact Nat.ne_of_gt (by decide : HttpStatus.ok < HttpStatus.serviceUnavailable)
  · exact fun ok => failed (code_of_table_ok ok)

/-- The error code that the filter of the service takes of an `HttpException`. -/
def sentErrorCode (exception : HttpException) : Option String :=
  if hasMessage exception then givenErrorCode exception else none

theorem normalize_http (exception : HttpException) :
    GrpcExceptionFilter.normalize numberOf (.http exception) =
      (GrpcExceptionFilter.codeOfHttpStatus exception.status, givenMessage exception,
        sentErrorCode exception) := by
  obtain ⟨status, response, text⟩ := exception
  cases response with
  | text line => rfl
  | object message errorCode =>
    cases message with
    | none => rfl
    | some message => rfl

theorem givenErrorCode_ne (exception : HttpException) : givenErrorCode exception ≠ some "" := by
  unfold givenErrorCode
  cases exception.response with
  | text line => exact Option.some_ne_none "" ∘ Eq.symm
  | object message errorCode =>
    dsimp only
    unfold extractErrorCode
    split
    · split_ifs with long
      · intro empty
        rw [Option.some.inj empty] at long
        exact absurd long (by decide)
      · exact Option.some_ne_none "" ∘ Eq.symm
    · exact Option.some_ne_none "" ∘ Eq.symm

theorem sentErrorCode_filter (exception : HttpException) :
    (sentErrorCode exception).filter (· ≠ "") = sentErrorCode exception := by
  have given := givenErrorCode_ne exception
  unfold sentErrorCode
  cases hgiven : givenErrorCode exception with
  | none => simp
  | some code =>
    rw [hgiven] at given
    split_ifs
    · simpa [Option.filter] using given
    · rfl

theorem sentErrorCode_eq_iff (exception : HttpException) :
    sentErrorCode exception = givenErrorCode exception ↔
      hasMessage exception = true ∨ givenErrorCode exception = none := by
  unfold sentErrorCode
  cases hasMessage exception <;> simp [eq_comm]

theorem http_survives_iff (exception : HttpException) :
    responseOf numberText numberOf channel isProduction (.http exception) =
        ⟨exception.status, (givenMessage exception).toJson, givenErrorCode exception⟩ ↔
      Survives numberOf (.http exception) := by
  have hcode := codeOfHttpStatus_mem exception.status
  have notOk : GrpcExceptionFilter.codeOfHttpStatus exception.status ≠ GrpcStatus.ok :=
    fun ok => absurd (ok ▸ hcode) (by decide)
  have available :
      GrpcExceptionFilter.codeOfHttpStatus exception.status ≠ GrpcStatus.unavailable :=
    fun unavailable => absurd (unavailable ▸ hcode) (by decide)
  have normal := normalize_http numberOf exception
  have hfilter := sentErrorCode_filter exception
  have hsent := sentErrorCode_eq_iff exception
  by_cases told : tellsOfRefusal (givenMessage exception) (sentErrorCode exception) = true
  · rw [responseOf_unavailable channel isProduction normal notOk (.inr (by rwa [hfilter]))]
    refine iff_of_false (fun same => ?_) fun survives => ?_
    · have none := (HttpErrorResponseBody.mk.inj same).2.2
      rw [hsent.mpr (.inr none.symm), not_told_by_line same] at told
      cases told
    · rw [hsent.mpr survives.2.2, survives.2.1] at told
      cases told
  · rw [responseOf_told channel isProduction normal notOk
      (by rw [hfilter]; exact not_or.mpr ⟨available, told⟩), hfilter,
      HttpErrorResponseBody.mk.injEq, table_codeOfHttpStatus, hsent]
    rw [Bool.not_eq_true] at told
    constructor
    · rintro ⟨known, -, sent⟩
      rw [hsent.mpr sent] at told
      exact ⟨known, told, sent⟩
    · rintro ⟨known, -, sent⟩
      exact ⟨known, rfl, sent⟩

theorem rpc_survives_iff {code status : ℕ} (message : Message) (details : Option String)
    (errorCode : Option Json) (hstatus : intendedStatus code = some status) :
    let error : RpcError := ⟨some code, some message, details, errorCode⟩
    responseOf numberText numberOf channel isProduction (.rpc (.object error)) =
        ⟨status, message.toJson, rpcErrorCode numberOf error⟩ ↔
      Survives numberOf (.rpc (.object error)) := by
  intro error
  have normal : GrpcExceptionFilter.normalize numberOf (.rpc (.object error)) =
      (code, message, GrpcExceptionFilter.errorCodeOfRpc numberOf error) := rfl
  have hsurvives : Survives numberOf (.rpc (.object error)) ↔
      if code = GrpcStatus.unavailable then
        message = .text upstreamUnavailable ∧ rpcErrorCode numberOf error = none
      else (1 ≤ code ∧ code ≤ 16 ∨ code = HttpStatus.badGateway) ∧
        tellsOfRefusal message (rpcErrorCode numberOf error) = false := Iff.rfl
  rw [hsurvives]
  by_cases ok : code = GrpcStatus.ok
  · subst ok
    obtain rfl : HttpStatus.ok = status := Option.some.inj hstatus
    refine iff_of_false (fun same => ?_) fun survives => ?_
    · exact statusCode_ne_ok numberText numberOf channel isProduction _
        (congrArg (·.statusCode) same)
    · rw [if_neg (by decide)] at survives
      exact absurd survives.1 (by decide)
  by_cases unavailable : code = GrpcStatus.unavailable
  · subst unavailable
    obtain rfl : HttpStatus.serviceUnavailable = status := Option.some.inj hstatus
    rw [responseOf_unavailable channel isProduction normal ok (.inl rfl), if_pos rfl,
      HttpErrorResponseBody.mk.injEq]
    constructor
    · rintro ⟨-, same, none⟩
      exact ⟨(unavailable_line_iff none.symm).mp same, none.symm⟩
    · rintro ⟨line, none⟩
      exact ⟨rfl, (unavailable_line_iff none).mpr line, none.symm⟩
  rw [if_neg unavailable]
  by_cases told : tellsOfRefusal message (rpcErrorCode numberOf error) = true
  · rw [responseOf_unavailable channel isProduction normal ok (.inr told)]
    refine iff_of_false (fun same => ?_) fun survives => ?_
    · rw [not_told_by_line same] at told
      cases told
    · rw [survives.2] at told
      cases told
  · rw [responseOf_told channel isProduction normal ok (not_or.mpr ⟨unavailable, told⟩),
      HttpErrorResponseBody.mk.injEq, table_of_intended hstatus]
    rw [Bool.not_eq_true] at told
    constructor
    · rintro ⟨known, -⟩
      exact ⟨known.imp_left fun below => ⟨Nat.pos_of_ne_zero ok, below⟩, told⟩
    · rintro ⟨known, -⟩
      exact ⟨known.imp_left And.right, rfl, rfl⟩

/-- A code that is none of gRPC does not arrive, whatever status it has in HTTP. -/
theorem statusCode_of_other {code : ℕ} (h : 16 < code) (message : Option Message)
    (details : Option String) (errorCode : Option Json) :
    (responseOf numberText numberOf channel isProduction
      (.rpc (.object ⟨some code, message, details, errorCode⟩))).statusCode ∈
        [HttpStatus.badGateway, HttpStatus.serviceUnavailable] := by
  have normal : GrpcExceptionFilter.normalize numberOf
      (.rpc (.object ⟨some code, message, details, errorCode⟩)) =
        (code, message.getD (.text "Internal server error"),
          GrpcExceptionFilter.errorCodeOfRpc numberOf ⟨some code, message, details, errorCode⟩) :=
    rfl
  have ok : code ≠ GrpcStatus.ok := by
    rintro rfl
    exact absurd h (by decide)
  have table : HttpExceptionFilter.grpcToHttpStatus code = none := by
    unfold HttpExceptionFilter.grpcToHttpStatus
    split
    case h_18 => rfl
    all_goals exact absurd h (by decide)
  by_cases lost : code = GrpcStatus.unavailable ∨
      tellsOfRefusal (message.getD (.text "Internal server error"))
        (rpcErrorCode numberOf ⟨some code, message, details, errorCode⟩) = true
  · rw [responseOf_unavailable channel isProduction normal ok lost]
    exact List.mem_cons_of_mem _ List.mem_cons_self
  · rw [responseOf_told channel isProduction normal ok lost, table]
    exact List.mem_cons_self

/-- What the service of the orders throws. -/
def ofOrders (exception : OrdersSchema.RpcException) : Exception :=
  .rpc (.object ⟨some exception.code, some (.text exception.message), none, none⟩)

/-- No refusal of an order arrives with its status. -/
theorem statusCode_of_refusedOrder {request : OrdersSchema.CreateOrderRequest}
    {exception : OrdersSchema.RpcException}
    (h : OrdersTransactions.validateCreateOrderRequest request = some exception) :
    (responseOf numberText numberOf channel isProduction (ofOrders exception)).statusCode ∈
      [HttpStatus.badGateway, HttpStatus.serviceUnavailable] := by
  refine statusCode_of_other numberText numberOf channel isProduction ?_ _ _ _
  unfold OrdersTransactions.validateCreateOrderRequest at h
  have badRequest : 16 < HttpStatus.badRequest := by decide
  split_ifs at h <;> (obtain rfl := Option.some.inj h; exact badRequest)

/-- An exception becomes the response it is meant to become exactly when it survives. -/
theorem errors_survive_iff {exception : Exception} {response : HttpErrorResponseBody}
    (h : intended numberOf exception = some response) :
    responseOf numberText numberOf channel isProduction exception = response ↔
      Survives numberOf exception := by
  match exception with
  | .http exception =>
    obtain rfl := Option.some.inj h
    exact http_survives_iff numberText numberOf channel isProduction exception
  | .rpc (.object ⟨code, message, details, errorCode⟩) =>
    obtain ⟨status, hstatus, h⟩ := Option.bind_eq_some_iff.mp h
    obtain ⟨code, rfl, hstatus⟩ := Option.bind_eq_some_iff.mp hstatus
    obtain ⟨message, rfl, h⟩ := Option.bind_eq_some_iff.mp h
    obtain rfl := Option.some.inj h
    exact rpc_survives_iff numberText numberOf channel isProduction message details errorCode
      hstatus
  | .rpc (.text text) => cases h
  | .error text => cases h
  | .other => cases h

end Hop

/-! ### Two exceptions of the services -/

/-- A channel that answers a call without an error as one without a message. -/
def plainChannel : GrpcChannel where
  deliver failure :=
    if failure.code = GrpcStatus.ok then
      ⟨GrpcStatus.internal, "No message received", "13 INTERNAL: No message received"⟩
    else ⟨failure.code, failure.details, statusText failure.code ++ failure.details⟩
  delivered failure h := if_neg h
  failed failure := by
    by_cases ok : failure.code = GrpcStatus.ok
    · rw [if_pos ok]
      decide
    · rw [if_neg ok]
      exact ok

/-- An order with a price that is not positive. -/
def invalidPrice : Exception :=
  ofOrders ⟨HttpStatus.badRequest, OrdersSchema.OrdersErrors.invalidPrice⟩

/-- A balance that is too small. -/
def insufficientBalance : Exception :=
  .rpc (.object ⟨some GrpcStatus.failedPrecondition,
    some (.text "Insufficient available balance: requested 2, available 1"), none,
    some (.string "INSUFFICIENT_BALANCE")⟩)

theorem errors_survive_iff_insufficientBalance :
    responseOf (fun _ => "") (fun _ => .finite 0) plainChannel true insufficientBalance =
        ⟨HttpStatus.badRequest, .string "Insufficient available balance: requested 2, available 1",
          some "INSUFFICIENT_BALANCE"⟩ ↔
      Survives (fun _ => .finite 0) insufficientBalance :=
  errors_survive_iff _ _ _ _ rfl

theorem not_errors_survive :
    ¬ ∀ exception response, intended (fun _ => .finite 0) exception = some response →
      responseOf (fun _ => "") (fun _ => .finite 0) plainChannel true exception = response := by
  intro survive
  have arrives := survive invalidPrice _ rfl
  have lost := statusCode_of_other (fun _ => "") (fun _ => .finite 0) plainChannel true
    (show 16 < HttpStatus.badRequest by decide)
    (some (.text OrdersSchema.OrdersErrors.invalidPrice)) none none
  rw [show Exception.rpc _ = invalidPrice from rfl, arrives] at lost
  exact absurd lost (by decide)

end EtherTrade.ErrorHopLaws
