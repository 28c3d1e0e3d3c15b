import MexcApi.Trace
import MexcApi.Loop
import MexcApi.Backward
import MexcApi.Models
import MexcApi.RateLimiterSound
import MexcApi.RateLimiterWindowSound
import MexcApi.RateLimiterBoundSound
import MexcApi.SpotHistorySound
import MexcApi.FuturesHistorySound
import MexcApi.FundingSound
import MexcApi.FuturesOrdersSound
import MexcApi.WsSkipSound
import MexcApi.WsStrandSound
import MexcApi.WsAckSound
import MexcApi.WsThreadSound
import MexcApi.WsStopSound
import MexcApi.WsLists
import MexcApi.WsQueueSound
import MexcApi.WsWireSound
import MexcApi.WsDistinctSound
import MexcApi.WsShapeSound
import MexcApi.WsOverlapSound
import MexcApi.SpotHolesSound
import MexcApi.OpenCandleSound
import MexcApi.DownloadsSound
import MexcApi.EventModels
import MexcApi.KeyedFold
import MexcApi.WsStreamManager
import MexcApi.WsStreamManagerSound
import MexcApi.DecodersSound
import MexcApi.FuturesModels
import MexcApi.RestEndpoints
import MexcApi.Replies
import MexcApi.SpotEndpointsSound
import MexcApi.FuturesEndpointsSound
import MexcApi.EndpointsSound
import MexcApi.DownloadRunsSound
import MexcApi.SpotRangeSound
import MexcApi.ConnectorCandlesSound
import MexcApi.WsIntactSound
import MexcApi.WsOwnedSound
import MexcApi.OrderMeaningSound
import MexcApi.OrderVerdictSound
import MexcApi.SortedMap
import MexcApi.Separated
import MexcApi.Served
import MexcApi.HttpSession
import MexcApi.HttpSessionSound
import MexcApi.SignatureSound
import MexcApi.DecimalText
import MexcApi.DecimalFieldsSound
import MexcApi.TickersSound
import MexcApi.Checked
import MexcApi.CheckedDownloads
import MexcApi.OverflowSound
import MexcApi.CheckedRunsSound
import MexcApi.FundingPagesSound
import MexcApi.WsTimeoutSound
import MexcApi.SlidingWindow
import MexcApi.RateLimiterPaceSound
import MexcApi.HeaderFields
import MexcApi.HttpMessages
import MexcApi.HttpMessagesSound
import MexcApi.SpotMessagesSound
import MexcApi.Interrupted
import MexcApi.StreamedDownloads
import MexcApi.ResumedDownloadsSound
import MexcApi.WsStreams
import MexcApi.WsStreamsSound
import MexcApi.WsProgressSound
import MexcApi.UndefinedSound
import MexcApi.ConnectorQueries
import MexcApi.Reports
import MexcApi.ConnectorHistorySound
import MexcApi.ConnectorQueriesSound
import MexcApi.OrderBodiesSound
import MexcApi.PlacedOrdersSound
import MexcApi.Leases
import MexcApi.ListenKeysSound
import MexcApi.CancelledOrdersSound
