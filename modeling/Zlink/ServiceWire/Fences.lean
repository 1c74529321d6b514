import Zlink.ServiceWire.Fields

/-!
# What the records of the service wire share

The ids of operations, the fences of routes to Actors and Spots, and the terminal results of
requests with the failures that may stand beside them.
-/

namespace Zlink.ServiceWire

structure WireOperationId where
  high : UInt64
  low : UInt64
  deriving DecidableEq

def WireOperationId.isZero (operation : WireOperationId) : Bool :=
  operation.high = 0 && operation.low = 0

structure SpotRouteFence where
  spotId : Text
  objectGeneration : UInt64
  targetNodeRoutingId : List UInt8
  targetNodeGeneration : UInt64
  authorityOwnerGeneration : UInt64
  ownerLeaseGeneration : UInt64

structure ActorRouteFence where
  actorId : Text
  objectGeneration : UInt64
  targetNodeRoutingId : List UInt8
  targetNodeGeneration : UInt64
  authorityOwnerGeneration : UInt64
  ownerLeaseGeneration : UInt64

def authorityStoreVersionBytes : ℕ :=
  4096

def messageFollowHopCount : UInt8 :=
  8

inductive RequestTerminalResult where
  | ok
  | timedOut
  | notFound
  | terminated
  | protocolError
  | internalError
  | rejected
  | conflict
  | busy
  | notConnected
  | invalidArgument
  | invalidState
  | notSupported
  | backpressured
  deriving DecidableEq

namespace RequestTerminalResult

def toCode : RequestTerminalResult → UInt32
  | ok => 0
  | timedOut => 101
  | notFound => 102
  | terminated => 103
  | protocolError => 104
  | internalError => 105
  | rejected => 106
  | conflict => 107
  | busy => 108
  | notConnected => 109
  | invalidArgument => 110
  | invalidState => 111
  | notSupported => 112
  | backpressured => 113

def all : List RequestTerminalResult :=
  [ok, timedOut, notFound, terminated, protocolError, internalError, rejected, conflict, busy,
    notConnected, invalidArgument, invalidState, notSupported, backpressured]

def ofCode? (code : UInt32) : Option RequestTerminalResult :=
  all.find? fun result => result.toCode = code

/-- The results that say enough without a failure. -/
def standsAlone : RequestTerminalResult → Bool
  | ok | timedOut | terminated | busy | notConnected | invalidArgument | invalidState
  | notSupported | backpressured => true
  | notFound | protocolError | internalError | rejected | conflict => false

end RequestTerminalResult

inductive FrameworkErrorCode where
  | none
  | actorRouteNotFound
  | actorCreateFailed
  | actorAlreadyExists
  | actorTypeMismatch
  | spotCreateFailed
  | spotRouteNotFound
  | spotTypeMismatch
  | actorSessionNotBound
  | handlerNotFound
  | routeHandlerNotFound
  | actorDispatchHandlerNotFound
  | payloadDecodeFailed
  | routeNotConnected
  | requestTargetNotFound
  | requestRejected
  | requestProtocolError
  | requestFailed
  | workerQueueFull
  | workerTimedOut
  | workerFailed
  | actorLocationStale
  | actorCreateRejected
  | spotGenerationStale
  | spotMoving
  | relocationDataLost
  deriving DecidableEq

namespace FrameworkErrorCode

def toCode : FrameworkErrorCode → UInt32
  | none => 0
  | actorRouteNotFound => 1
  | actorCreateFailed => 2
  | actorAlreadyExists => 3
  | actorTypeMismatch => 4
  | spotCreateFailed => 5
  | spotRouteNotFound => 6
  | spotTypeMismatch => 7
  | actorSessionNotBound => 8
  | handlerNotFound => 9
  | routeHandlerNotFound => 10
  | actorDispatchHandlerNotFound => 11
  | payloadDecodeFailed => 12
  | routeNotConnected => 13
  | requestTargetNotFound => 14
  | requestRejected => 15
  | requestProtocolError => 16
  | requestFailed => 17
  | workerQueueFull => 18
  | workerTimedOut => 19
  | workerFailed => 20
  | actorLocationStale => 21
  | actorCreateRejected => 22
  | spotGenerationStale => 33
  | spotMoving => 34
  | relocationDataLost => 35

def all : List FrameworkErrorCode :=
  [none, actorRouteNotFound, actorCreateFailed, actorAlreadyExists, actorTypeMismatch,
    spotCreateFailed, spotRouteNotFound, spotTypeMismatch, actorSessionNotBound, handlerNotFound,
    routeHandlerNotFound, actorDispatchHandlerNotFound, payloadDecodeFailed, routeNotConnected,
    requestTargetNotFound, requestRejected, requestProtocolError, requestFailed, workerQueueFull,
    workerTimedOut, workerFailed, actorLocationStale, actorCreateRejected, spotGenerationStale,
    spotMoving, relocationDataLost]

def ofCode? (code : UInt32) : Option FrameworkErrorCode :=
  all.find? fun failure => failure.toCode = code

def terminal : FrameworkErrorCode → Option RequestTerminalResult
  | none => Option.none
  | actorRouteNotFound | spotRouteNotFound | actorSessionNotBound | handlerNotFound
  | routeHandlerNotFound | actorDispatchHandlerNotFound | requestTargetNotFound => some .notFound
  | actorCreateFailed | spotCreateFailed | routeNotConnected | requestFailed | workerTimedOut
  | workerFailed | relocationDataLost => some .internalError
  | actorAlreadyExists | actorTypeMismatch | spotTypeMismatch | actorLocationStale
  | spotGenerationStale | spotMoving => some .conflict
  | payloadDecodeFailed | requestProtocolError => some .protocolError
  | requestRejected | workerQueueFull | actorCreateRejected => some .rejected

end FrameworkErrorCode

def validTerminalFailure (terminal failure : UInt32) : Bool :=
  match RequestTerminalResult.ofCode? terminal, FrameworkErrorCode.ofCode? failure with
  | some terminal, some failure =>
    if terminal.standsAlone then failure = .none else failure.terminal = some terminal
  | _, _ => false

end Zlink.ServiceWire
