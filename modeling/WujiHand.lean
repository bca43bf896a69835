import WujiHand.Library.Runs
import WujiHand.Library.Progress
import WujiHand.Library.Bytes
import WujiHand.Library.Grammar
import WujiHand.Library.NextFit
import WujiHand.Library.Tally
import WujiHand.Library.Registry
import WujiHand.Library.Circular
import WujiHand.Library.BoundedQueue
import WujiHand.Library.Ledger
import WujiHand.Library.Rounding
import WujiHand.Library.Smoothing
import WujiHand.Library.Publication
import WujiHand.Library.Wakeups
import WujiHand.Library.MutualExclusion
import WujiHand.Protocol.Storage
import WujiHand.Protocol.Records
import WujiHand.Protocol.ObjectDictionary
import WujiHand.Handler.Unit
import WujiHand.Handler.UnitSteps
import WujiHand.Handler.Table
import WujiHand.Handler.Receive
import WujiHand.Handler.ReceiveGrammar
import WujiHand.Handler.ReceiveParser
import WujiHand.Handler.ReceiveExact
import WujiHand.Handler.System
import WujiHand.Handler.Completion
import WujiHand.Handler.Session
import WujiHand.Handler.WriteDelivery
import WujiHand.Handler.ReadFreshness
import WujiHand.Device.DataOperator
import WujiHand.Device.Hand
import WujiHand.Device.Dispatch
import WujiHand.Handler.Machine
import WujiHand.Handler.Interleaving
import WujiHand.Driver.Transfer
import WujiHand.Driver.Transmit
import WujiHand.Driver.WireImage
import WujiHand.Driver.Filling
import WujiHand.Driver.LoneRecords
import WujiHand.Driver.FetchTurns
import WujiHand.Handler.TickLoop
import WujiHand.Handler.BackPressure
import WujiHand.Device.Latch
import WujiHand.Device.LatchAccounting
import WujiHand.Device.LatchLifetime
import WujiHand.Device.LatchRounds
import WujiHand.Device.LatchWaits
import WujiHand.Handler.LifeCycle
import WujiHand.Handler.LastRead
import WujiHand.Handler.Deadline
import WujiHand.Handler.ResponseWidth
import WujiHand.Handler.RequestGrammar
import WujiHand.Driver.RecordLog
import WujiHand.Driver.AcceptedRecords
import WujiHand.Handler.TickRequests
import WujiHand.Handler.TickSystem
import WujiHand.Handler.PromptDevice
import WujiHand.Handler.PromptCompletion
import WujiHand.Device.ServedUnits
import WujiHand.Device.Batches
import WujiHand.Device.StorageLayout
import WujiHand.Device.Masking
import WujiHand.Utility.Logging
import WujiHand.Utility.LoggingAgreement
import WujiHand.Utility.RingBuffer
import WujiHand.Utility.RingBufferThreads
import WujiHand.Utility.RingBufferWaits
import WujiHand.Utility.RingBufferQueue
import WujiHand.Utility.RingBufferCapacity
import WujiHand.Utility.RingBufferThrows
import WujiHand.Driver.AllocationFailure
import WujiHand.Driver.Usb
import WujiHand.Driver.UsbResources
import WujiHand.Driver.Conservation
import WujiHand.Driver.TransmitPool
import WujiHand.Protocol.Position
import WujiHand.Protocol.PositionRoundTrip
import WujiHand.Device.PositionUnits
import WujiHand.Device.TargetPosition
import WujiHand.Device.PositionPaths
import WujiHand.Device.LimitOrder
import WujiHand.Device.RealtimeController
import WujiHand.Device.FilteredController
import WujiHand.Device.FilteredControllerThreads
import WujiHand.Device.LowPassTracking
import WujiHand.Handler.RealtimeLoop
import WujiHand.Handler.RealtimeSteps
import WujiHand.Handler.RealtimeRecords
import WujiHand.Handler.ActualPositions
import WujiHand.Handler.RealtimeStop
import WujiHand.Handler.Lifetime
import WujiHand.Handler.Shutdown
import WujiHand.Device.EnableRestore
import WujiHand.Device.EnabledCells
import WujiHand.Device.BatchCompletion
import WujiHand.Device.HandConstruction
import WujiHand.Device.ControllerOwnership
